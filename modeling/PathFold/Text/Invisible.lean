import PathFold.Text.CodeRanges

/-! Characters that leave no mark of their own. The ranges are those of Unicode 17.0. -/

namespace PathFold.Text

/-- The controls, the format characters, every separator of words, lines and paragraphs except the space
(general categories Cc, Cf, Zs, Zl and Zp), and whatever is shown as nothing by default (property
Default_Ignorable_Code_Point), the fillers of the Korean script among it. -/
def invisible : CodeRanges :=
  [(0x0000, 0x001F), (0x007F, 0x00A0), (0x00AD, 0x00AD), (0x034F, 0x034F), (0x0600, 0x0605),
   (0x061C, 0x061C), (0x06DD, 0x06DD), (0x070F, 0x070F), (0x0890, 0x0891), (0x08E2, 0x08E2),
   (0x115F, 0x1160), (0x1680, 0x1680), (0x17B4, 0x17B5), (0x180B, 0x180F), (0x2000, 0x200F),
   (0x2028, 0x202F), (0x205F, 0x206F), (0x3000, 0x3000), (0x3164, 0x3164), (0xFE00, 0xFE0F),
   (0xFEFF, 0xFEFF), (0xFFA0, 0xFFA0), (0xFFF0, 0xFFFB), (0x110BD, 0x110BD), (0x110CD, 0x110CD),
   (0x13430, 0x1343F), (0x1BCA0, 0x1BCA3), (0x1D173, 0x1D17A), (0xE0000, 0xE0FFF)]

example : invisible.apart = true := by decide +kernel

example : invisible.size = 4289 := by decide +kernel

example : invisible.has 0x200B = true := by decide +kernel

example : invisible.has 0x3164 = true := by decide +kernel

example : invisible.has 0x0020 = false := by decide +kernel

end PathFold.Text
