import Harvest.Text.Mark

/-!
# Composed texts

Some letters with a mark are characters of their own. A text is composed if it has no letter and mark
for which there is such a character, and its marks are in order. Capital letters are not considered.
-/

namespace Harvest.Text

/-- The marks that make one character with some letters, each with these letters. -/
def compositions : List (Nat × List Nat) := [
  (768, [97, 101, 105, 110, 111, 117, 119, 121, 226, 234, 244, 252, 259, 275, 333, 417, 432,
    945, 949, 951, 953, 959, 965, 969, 970, 971, 1077, 1080, 7936, 7937, 7952, 7953, 7968, 7969,
    7984, 7985, 8000, 8001, 8016, 8017, 8032, 8033]),
  (769, [97, 99, 101, 103, 105, 107, 108, 109, 110, 111, 112, 114, 115, 117, 119, 121, 122, 226,
    229, 230, 231, 234, 239, 244, 245, 248, 252, 259, 275, 333, 361, 417, 432, 945, 949, 951,
    953, 959, 965, 969, 970, 971, 1075, 1082, 7936, 7937, 7952, 7953, 7968, 7969, 7984, 7985,
    8000, 8001, 8016, 8017, 8032, 8033]),
  (770, [97, 99, 101, 103, 104, 105, 106, 111, 115, 117, 119, 121, 122, 7841, 7865, 7885]),
  (771, [97, 101, 105, 110, 111, 117, 118, 121, 226, 234, 244, 259, 417, 432]),
  (772, [97, 101, 103, 105, 111, 117, 121, 228, 230, 245, 246, 252, 491, 551, 559, 945, 953,
    965, 1080, 1091, 7735, 7771]),
  (774, [97, 101, 103, 105, 111, 117, 553, 945, 953, 965, 1072, 1077, 1078, 1080, 1091, 7841]),
  (775, [97, 98, 99, 100, 101, 102, 103, 104, 109, 110, 111, 112, 114, 115, 116, 119, 120, 121,
    122, 347, 353, 7779]),
  (776, [97, 101, 104, 105, 111, 116, 117, 119, 120, 121, 245, 363, 953, 965, 1072, 1077, 1078,
    1079, 1080, 1086, 1091, 1095, 1099, 1101, 1110, 1241, 1257]),
  (777, [97, 101, 105, 111, 117, 121, 226, 234, 244, 259, 417, 432]),
  (778, [97, 117, 119, 121]), (779, [111, 117, 1091]),
  (780, [97, 99, 100, 101, 103, 104, 105, 106, 107, 108, 110, 111, 114, 115, 116, 117, 122, 252,
    658]),
  (783, [97, 101, 105, 111, 114, 117, 1141]), (785, [97, 101, 105, 111, 114, 117]),
  (787, [945, 949, 951, 953, 959, 961, 965, 969]),
  (788, [945, 949, 951, 953, 959, 961, 965, 969]), (795, [111, 117]),
  (803, [97, 98, 100, 101, 104, 105, 107, 108, 109, 110, 111, 114, 115, 116, 117, 118, 119, 121,
    122, 417, 432]),
  (804, [117]), (805, [97]), (806, [115, 116]),
  (807, [99, 100, 101, 103, 104, 107, 108, 110, 114, 115, 116]),
  (808, [97, 101, 105, 111, 117]), (813, [100, 101, 108, 110, 116, 117]), (814, [104]),
  (816, [101, 105, 117]), (817, [98, 100, 104, 107, 108, 110, 114, 116, 122]),
  (834, [945, 951, 953, 965, 969, 970, 971, 7936, 7937, 7968, 7969, 7984, 7985, 8016, 8017,
    8032, 8033]),
  (1619, [1575]), (1620, [1575, 1608, 1610, 1729, 1746, 1749]), (1621, [1575]),
  (2364, [2344, 2352, 2355]), (2494, [2503]), (2519, [2503]), (2878, [2887]), (2902, [2887]),
  (2903, [2887]), (3006, [3014, 3015]), (3031, [2962, 3014]), (3158, [3142]), (3266, [3270]),
  (3285, [3263, 3270, 3274]), (3286, [3270]), (3390, [3398, 3399]), (3415, [3398]),
  (3530, [3545, 3548]), (3535, [3545]), (3551, [3545]), (4142, [4133]),
  (6965, [6917, 6919, 6921, 6923, 6925, 6929, 6970, 6972, 6974, 6975, 6978]),
  (12441, [12358, 12363, 12365, 12367, 12369, 12371, 12373, 12375, 12377, 12379, 12381, 12383,
    12385, 12388, 12390, 12392, 12399, 12402, 12405, 12408, 12411, 12445, 12454, 12459, 12461,
    12463, 12465, 12467, 12469, 12471, 12473, 12475, 12477, 12479, 12481, 12484, 12486, 12488,
    12495, 12498, 12501, 12504, 12507, 12527, 12528, 12529, 12530, 12541]),
  (12442, [12399, 12402, 12405, 12408, 12411, 12495, 12498, 12501, 12504, 12507]),
  (69818, [69785, 69787, 69797]), (69927, [69937, 69938]), (70462, [70471]), (70487, [70471]),
  (70832, [70841]), (70842, [70841]), (70845, [70841]), (71087, [71096, 71097]),
  (71984, [71989])]

def hasComposition (letter mark : Char) : Bool :=
  match compositions.lookup mark.toNat with
  | some letters => letters.contains letter.toNat
  | none => false

/-- Whether a text is composed that follows a letter and a character of some class. -/
def isComposedAfter (letter : Option Char) (previous : Nat) : List Char → Bool
  | [] => true
  | c :: cs =>
    let k := combiningClass c
    let disordered := k != 0 && k < previous
    let adjoins := previous == 0 || previous < k
    if disordered || (adjoins && letter.any (hasComposition · c)) then false
    else if k == 0 then isComposedAfter (some c) 0 cs
    else isComposedAfter letter k cs

def isComposed (cs : List Char) : Bool := isComposedAfter none 0 cs

@[simp] theorem isComposed_nil : isComposed [] = true := rfl

end Harvest.Text
