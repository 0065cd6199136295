import PathFold.Proofs.Rule.Describing

/-! Which rules compile, and to what. They do if every pattern describes containers, not too many of
them, and the distinct names of all rules fit into a table; the table then holds just these, in
first-seen order. Otherwise the first rule that breaks one of the conditions is refused, for what is
met first when its pattern, its depth and its property are gone through. -/

namespace PathFold

open SymbolTable (ofNames Fits)

variable {α : Type}

/-- What keeps a rule from being added under an index to others whose names are known. -/
inductive Rule.Refused (maxDepth : Nat) (known : List Bytes) (index : Nat) (rule : Rule α) :
    Error → Prop
  | empty : rule.path = [] → Refused maxDepth known index rule (.invalidPattern index .empty)
  | invalid {fault} : Pattern.Refuses none known rule.path (.invalid fault) →
      Refused maxDepth known index rule (.invalidPattern index fault)
  | fullInPattern {error} : Pattern.Refuses none known rule.path (.full error) →
      Refused maxDepth known index rule error
  | tooDeep {items} : Pattern.Describes rule.path items →
      Fits (known ++ Pattern.names rule.path) → maxDepth < items.length →
      Refused maxDepth known index rule (.patternTooDeep index items.length maxDepth)
  | fullAtProperty {items} : Pattern.Describes rule.path items → items.length ≤ maxDepth →
      Fits (known ++ Pattern.names rule.path) → ¬ Fits (known ++ rule.names) →
      Refused maxDepth known index rule (.symbolCapacity SymbolTable.capacity)

/-- The condition that a rule breaks, as its error names it. -/
def Rule.Breaks (maxDepth : Nat) (known : List Bytes) (index : Nat) (rule : Rule α) : Error → Prop
  | .invalidPattern i _ => i = index ∧ ∀ items, ¬ Pattern.Describes rule.path items
  | .patternTooDeep i depth max => i = index ∧ max = maxDepth ∧ maxDepth < depth ∧
      ∃ items, Pattern.Describes rule.path items ∧ items.length = depth
  | .symbolCapacity capacity => capacity = SymbolTable.capacity ∧ ¬ Fits (known ++ rule.names)
  | _ => False

/-- That a rule can be added to others whose names are known. -/
structure Rule.Accepted (maxDepth : Nat) (known : List Bytes) (rule : Rule α) : Prop where
  pattern : ∃ items, Pattern.Describes rule.path items ∧ items.length ≤ maxDepth
  fits : Fits (known ++ rule.names)

/-- What rules must be to compile. -/
structure RuleSet.Compilable (maxDepth : Nat) (rules : List (Rule α)) : Prop where
  patterns : ∀ rule ∈ rules, ∃ items, Pattern.Describes rule.path items ∧ items.length ≤ maxDepth
  fits : Fits (rules.flatMap Rule.names)

/-- The error of a refused rule names a condition that the rule breaks. -/
theorem Rule.Refused.breaks {maxDepth : Nat} {known : List Bytes} {index : Nat} {rule : Rule α}
    {error : Error} (h : rule.Refused maxDepth known index error) :
    rule.Breaks maxDepth known index error := by
  cases h with
  | empty none =>
    refine ⟨rfl, fun items describes => describes.nonempty ?_⟩
    rw [← describes.items_eq, none]
    rfl
  | invalid refuses =>
    refine ⟨rfl, fun items describes => ?_⟩
    cases refuses with
    | spoilt front _ same spoils =>
      exact spoils.not_written describes.nested (describes.written.symm.trans same)
  | fullInPattern refuses =>
    cases refuses with
    | @full front bytes rest _ same _ _ tooMany =>
      refine ⟨rfl, fun fits => tooMany ?_⟩
      have names : known ++ rule.names =
          known ++ (Pattern.names (Pattern.written front) ++ [bytes]) ++
            (Pattern.names rest ++ rule.property.toList) := by
        simp [Rule.names, same, Pattern.names, Marker.name?]
      rw [names] at fits
      exact fits.of_append
  | tooDeep describes _ deep => exact ⟨rfl, rfl, deep, _, describes, rfl⟩
  | fullAtProperty _ _ _ tooMany => exact ⟨rfl, tooMany⟩

/-- A pattern that describes containers compiles to one frame for each, if its names fit. -/
theorem Pattern.Describes.compile_eq {markers : List Marker} {items : List Item}
    (h : Describes markers items) {known : List Bytes} (fits : Fits (known ++ names markers)) :
    ∃ frames, frames.length = items.length ∧
      compile markers (ofNames known) = .ok (frames, ofNames (known ++ names markers)) := by
  have more : ¬ markers.isEmpty = true := by
    obtain ⟨item, rest, rfl⟩ := List.exists_cons_of_ne_nil h.nonempty
    rw [h.written]
    obtain ⟨_ | bytes, kind⟩ := item <;> exact Bool.false_ne_true
  obtain rfl := h.written
  obtain ⟨frames, made⟩ := exists_framesIn h.nested fits
  refine ⟨frames, ?_, ?_⟩
  · rw [(framesIn_eq_ok made).2, List.length_map, items_written]
  · rw [compile, if_neg more, made]

namespace RuleSet

theorem recordOption_of_fits {known : List Bytes} {name : Option Bytes}
    (h : Fits (known ++ name.toList)) :
    ∃ symbol, recordOption (ofNames known) name = .ok (symbol, ofNames (known ++ name.toList)) := by
  cases name with
  | none =>
    rw [Option.toList_none, List.append_nil]
    exact ⟨none, rfl⟩
  | some name =>
    obtain ⟨symbol, taken⟩ := SymbolTable.record_of_fits h
    refine ⟨some symbol, ?_⟩
    rw [recordOption, taken]
    rfl

theorem recordOption_of_not_fits {known : List Bytes} {name : Option Bytes} (before : Fits known)
    (h : ¬ Fits (known ++ name.toList)) :
    recordOption (ofNames known) name = .error (.symbolCapacity SymbolTable.capacity) := by
  cases name with
  | none =>
    rw [Option.toList_none, List.append_nil] at h
    exact absurd before h
  | some name => rw [recordOption, SymbolTable.record_of_not_fits before h]

section Adding

variable {maxDepth : Nat} {known : List Bytes} {set : RuleSet α} {rule : Rule α}

/-- A rule that can be added is added, with its names. -/
theorem add_of_accepted (table : set.symbols = ofNames known)
    (h : rule.Accepted maxDepth known) : ∃ next, set.add maxDepth rule = .ok next ∧
      next.symbols = ofNames (known ++ rule.names) ∧ next.size = set.size + 1 := by
  obtain ⟨⟨items, describes, shallow⟩, fits⟩ := h
  rw [Rule.names, ← List.append_assoc] at fits
  obtain ⟨frames, length, compiled⟩ := describes.compile_eq fits.of_append
  obtain ⟨symbol, taken⟩ := recordOption_of_fits fits
  have notDeep : ¬ maxDepth < frames.length := by omega
  refine ⟨⟨ofNames (known ++ rule.names),
    set.rules ++ [⟨frames, symbol, rule.kind, rule.action⟩],
    set.byDepth.modify frames.length (· ++ [set.size])⟩, ?_, rfl, List.length_append⟩
  rw [add, table, compiled]
  dsimp only
  rw [if_neg notDeep, taken, Rule.names, List.append_assoc]

/-- A rule that is refused is refused with its error. -/
theorem add_of_refused (table : set.symbols = ofNames known) {error : Error}
    (h : rule.Refused maxDepth known set.size error) : set.add maxDepth rule = .error error := by
  have more {refusal : Pattern.Refusal}
      (refuses : Pattern.Refuses none known rule.path refusal) :
      Pattern.compile rule.path set.symbols = .error refusal := by
    have given : ¬ rule.path.isEmpty = true := by
      intro empty
      rw [List.isEmpty_iff.1 empty] at refuses
      cases refuses.framesIn_eq
    rw [Pattern.compile, if_neg given, table, refuses.framesIn_eq]
  cases h with
  | empty none =>
    rw [add, none]
    rfl
  | invalid refuses => rw [add, more refuses]
  | fullInPattern refuses => rw [add, more refuses]
  | tooDeep describes fits deep =>
    obtain ⟨frames, length, compiled⟩ := describes.compile_eq fits
    rw [add, table, compiled, ← length]
    exact if_pos (length ▸ deep)
  | fullAtProperty describes shallow fits tooMany =>
    obtain ⟨frames, length, compiled⟩ := describes.compile_eq fits
    have notDeep : ¬ maxDepth < frames.length := by omega
    rw [Rule.names, ← List.append_assoc] at tooMany
    rw [add, table, compiled]
    dsimp only
    rw [if_neg notDeep, recordOption_of_not_fits fits tooMany]

/-- A rule can be added or is refused. -/
theorem accepted_or_refused (maxDepth : Nat) (fits : Fits known) (index : Nat) (rule : Rule α) :
    rule.Accepted maxDepth known ∨ ∃ error, rule.Refused maxDepth known index error := by
  rcases Pattern.written_or_refuses none rule.path fits with
    ⟨items, nested, written, fits⟩ | ⟨refusal, refuses⟩
  · cases items with
    | nil => exact .inr ⟨_, .empty written⟩
    | cons item items =>
      have describes : Pattern.Describes rule.path (item :: items) :=
        ⟨List.cons_ne_nil _ _, nested, written⟩
      by_cases deep : maxDepth < (item :: items).length
      · exact .inr ⟨_, .tooDeep describes fits deep⟩
      · have shallow := Nat.le_of_not_lt deep
        by_cases room : Fits (known ++ rule.names)
        · exact .inl ⟨⟨_, describes, shallow⟩, room⟩
        · exact .inr ⟨_, .fullAtProperty describes shallow fits room⟩
  · cases refusal with
    | invalid fault => exact .inr ⟨_, .invalid refuses⟩
    | full error => exact .inr ⟨_, .fullInPattern refuses⟩

end Adding

theorem Compilable.append {maxDepth : Nat} {done more : List (Rule α)}
    (h : Compilable maxDepth (done ++ more)) : Compilable maxDepth done := by
  refine ⟨fun rule mem => h.patterns rule (List.mem_append_left _ mem), ?_⟩
  have fits := h.fits
  rw [List.flatMap_append] at fits
  exact fits.of_append

/-- One rule more is one that can be added. -/
theorem compilable_concat_iff {maxDepth : Nat} {done : List (Rule α)} {rule : Rule α} :
    Compilable maxDepth (done ++ [rule]) ↔
      Compilable maxDepth done ∧ rule.Accepted maxDepth (done.flatMap Rule.names) := by
  have names : (done ++ [rule]).flatMap Rule.names = done.flatMap Rule.names ++ rule.names := by
    simp
  constructor
  · intro h
    exact ⟨h.append, h.patterns rule (by simp), names ▸ h.fits⟩
  · rintro ⟨h, accepted⟩
    refine ⟨fun other mem => ?_, names ▸ accepted.fits⟩
    rcases List.mem_append.1 mem with mem | mem
    · exact h.patterns other mem
    · rw [List.mem_singleton.1 mem]
      exact accepted.pattern

/-- What rules must have been to compile, and which names the table then holds. -/
theorem compilable_of_compile {maxDepth : Nat} {rules : List (Rule α)} {set : RuleSet α}
    (h : compile rules maxDepth = .ok set) : Compilable maxDepth rules ∧
      set.symbols = ofNames (rules.flatMap Rule.names) ∧ set.size = rules.length := by
  refine compile_induction h (P := fun rules set => Compilable maxDepth rules ∧
    set.symbols = ofNames (rules.flatMap Rule.names) ∧ set.size = rules.length) ?_ ?_
  · exact ⟨⟨by simp, Nat.zero_le _⟩, rfl, rfl⟩
  · rintro done set rule next ⟨compilable, table, length⟩ added
    rcases accepted_or_refused maxDepth compilable.fits set.size rule with
      accepted | ⟨error, refused⟩
    · obtain ⟨_, added', names, size⟩ := add_of_accepted table accepted
      cases added.symm.trans added'
      refine ⟨compilable_concat_iff.2 ⟨compilable, accepted⟩, ?_, ?_⟩
      · simpa using names
      · simpa [length] using size
    · cases added.symm.trans (add_of_refused table refused)

/-- Compiling fails at the first rule that is refused. -/
theorem compile_eq_error_iff {maxDepth : Nat} {rules : List (Rule α)} {error : Error} :
    compile rules maxDepth = .error error ↔ ∃ done rule rest set, rules = done ++ rule :: rest ∧
      compile done maxDepth = .ok set ∧ set.add maxDepth rule = .error error := by
  unfold compile
  generalize empty maxDepth = start
  constructor
  · intro h
    induction rules generalizing start with
    | nil => cases h
    | cons rule rules ih =>
      rw [List.foldlM_cons] at h
      cases added : start.add maxDepth rule with
      | error other =>
        rw [added] at h
        cases h
        exact ⟨[], rule, rules, start, rfl, rfl, added⟩
      | ok next =>
        rw [added] at h
        obtain ⟨done, other, rest, set, rfl, compiled, refused⟩ := ih next h
        refine ⟨rule :: done, other, rest, set, rfl, ?_, refused⟩
        rw [List.foldlM_cons, added]
        exact compiled
  · rintro ⟨done, rule, rest, set, rfl, compiled, refused⟩
    have last : (rule :: rest).foldlM (add maxDepth) set = .error error := by
      rw [List.foldlM_cons, refused]
      rfl
    rw [List.foldlM_append, compiled]
    exact last

theorem exists_compile {maxDepth : Nat} {rules : List (Rule α)} (h : Compilable maxDepth rules) :
    ∃ set, compile rules maxDepth = .ok set := by
  cases compiled : compile rules maxDepth with
  | ok set => exact ⟨set, rfl⟩
  | error error =>
    obtain ⟨done, rule, rest, set, rfl, before, refused⟩ := compile_eq_error_iff.1 compiled
    rw [List.append_cons] at h
    obtain ⟨-, table, -⟩ := compilable_of_compile before
    obtain ⟨next, added, -⟩ := add_of_accepted table (compilable_concat_iff.1 h.append).2
    cases added.symm.trans refused

/-- Compiling accepts just the rules whose patterns describe containers, no more of them than
allowed, and whose distinct names fit into a table. The table then holds these names in first-seen
order, and each rule is resolved item by item: an item without a name to the wildcard, and names to
their symbols. Otherwise the error is that of the first rule that cannot be added to those before
it; it names a condition that this rule breaks, the first that is met. -/
theorem compile_exact (rules : List (Rule α)) (maxDepth : Nat) :
    ((∃ set, compile rules maxDepth = .ok set) ↔ Compilable maxDepth rules) ∧
    (∀ set, compile rules maxDepth = .ok set →
      set.symbols.names = (rules.flatMap Rule.names).eraseDups ∧ set.size = rules.length ∧
      ∀ (i : Nat) rule, rules[i]? = some rule → ∃ items compiled,
        Pattern.Describes rule.path items ∧ set.get? i = some compiled ∧
        compiled.frames = items.map (fun item => .named item.kind
          (match item.name with
            | some name => set.symbols.encode name
            | none => .wildcard)) ∧
        compiled.property = rule.property.map set.symbols.encode ∧ compiled.kind = rule.kind ∧
        compiled.action = rule.action) ∧
    ∀ error, compile rules maxDepth = .error error ↔
      ∃ done rule rest, rules = done ++ rule :: rest ∧ Compilable maxDepth done ∧
        ¬ Compilable maxDepth (done ++ [rule]) ∧
        rule.Breaks maxDepth (done.flatMap Rule.names) done.length error ∧
        rule.Refused maxDepth (done.flatMap Rule.names) done.length error := by
  refine ⟨⟨fun ⟨set, compiled⟩ => (compilable_of_compile compiled).1, exists_compile⟩, ?_, ?_⟩
  · intro set compiled
    obtain ⟨compilable, table, length⟩ := compilable_of_compile compiled
    refine ⟨congrArg SymbolTable.names table, length, fun i rule here => ?_⟩
    obtain ⟨items, describes, -⟩ := compilable.patterns rule (List.mem_of_getElem? here)
    have inside : i < set.rules.length := by
      rw [show set.rules.length = rules.length from length]
      exact (List.getElem?_eq_some_iff.1 here).1
    have there : set.rules[i]? = some set.rules[i] := List.getElem?_eq_getElem inside
    have resolves := (translates_of_compile compiled).resolves i rule _ here there
    refine ⟨items, _, describes, there, ?_, resolves.property, resolves.kind, resolves.action⟩
    rw [resolves.frames, describes.items_eq]
    refine List.map_congr_left fun item _ => ?_
    obtain ⟨_ | name, kind⟩ := item <;> rfl
  · intro error
    rw [compile_eq_error_iff]
    constructor
    · rintro ⟨done, rule, rest, set, rfl, before, failed⟩
      obtain ⟨compilable, table, length⟩ := compilable_of_compile before
      rcases accepted_or_refused maxDepth compilable.fits done.length rule with
        accepted | ⟨other, refused⟩
      · obtain ⟨next, added, -⟩ := add_of_accepted table accepted
        cases added.symm.trans failed
      · have failed' := add_of_refused table (length ▸ refused)
        cases failed.symm.trans failed'
        refine ⟨done, rule, rest, rfl, compilable, fun more => ?_, refused.breaks, refused⟩
        obtain ⟨next, added, -⟩ := add_of_accepted table (compilable_concat_iff.1 more).2
        cases added.symm.trans failed
    · rintro ⟨done, rule, rest, rfl, compilable, -, -, refused⟩
      obtain ⟨set, before⟩ := exists_compile compilable
      obtain ⟨-, table, length⟩ := compilable_of_compile before
      exact ⟨done, rule, rest, set, rfl, before, add_of_refused table (length ▸ refused)⟩

/-- The same rule twice, with the names `a` and `b`. -/
theorem compile_exact_twice :
    let rule : Rule Nat :=
      ⟨[.container .object, .name [0x61], .container .array], some [0x62], none,
        fun _ _ _ n => ⟨n, []⟩⟩
    ∃ set items compiled, compile [rule, rule] 2 = .ok set ∧
      set.symbols.names = [[0x61], [0x62]] ∧ Pattern.Describes rule.path items ∧
      set.get? 1 = some compiled ∧ compiled.property = some (set.symbols.encode [0x62]) := by
  intro rule
  have compiled : compile [rule, rule] 2 = .ok _ := rfl
  obtain ⟨names, -, resolved⟩ := (compile_exact [rule, rule] 2).2.1 _ compiled
  obtain ⟨items, second, describes, there, -, property, -⟩ := resolved 1 rule rfl
  exact ⟨_, items, second, compiled, names.trans (by decide), describes, there, property⟩

end RuleSet

end PathFold
