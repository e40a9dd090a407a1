import LabelHooks.Text.Utf8

/-!
Simple case mapping: one code point to one code point, by the Unicode 15 character database.
-/

namespace LabelHooks

/-- Code points that all move by `shift`, in runs of every `stride`-th code point. A run is given
by the distance of its first code point from the end of the run before and by its size. -/
structure CaseShift where
  stride : Nat
  shift : Int
  runs : List (Nat × Nat)

namespace CaseShift

def coveredBy (stride : Nat) : List (Nat × Nat) → Nat → Bool
  | [], _ => false
  | (skip, size) :: runs, n =>
    skip ≤ n && if n - skip < stride * size then (n - skip) % stride == 0
      else coveredBy stride runs (n - skip - stride * size)

def map (shifts : List CaseShift) (n : Nat) : Nat :=
  match shifts.find? fun s => coveredBy s.stride s.runs n with
  | some s => (n + s.shift).toNat
  | none => n

def upper : List CaseShift := [
  ⟨1, -32, [(97, 26), (101, 23), (1, 7), (690, 17), (1, 9), (100, 32), (64241, 26), (6501, 32),
  (21888, 32)]⟩, ⟨1, 743, [(181, 1)]⟩, ⟨1, 121, [(255, 1)]⟩, ⟨2, -1, [(257, 24), (2, 3), (1, 8),
  (1, 23), (1, 3), (3, 2), (1, 1), (2, 1), (4, 1), (5, 1), (6, 3), (1, 1), (3, 1), (1, 1), (2, 2),
  (1, 1), (2, 1), (6, 1), (1, 1), (1, 1), (1, 8), (1, 9), (1, 1), (1, 1), (2, 20), (2, 9), (7, 1),
  (4, 1), (3, 5), (288, 2), (2, 1), (96, 12), (7, 1), (1, 1), (100, 17), (8, 27), (1, 7), (1, 48),
  (6352, 75), (10, 48), (643, 1), (2779, 1), (5, 3), (5, 1), (1, 1), (9, 50), (7, 2), (3, 1),
  (31052, 23), (18, 14), (134, 7), (2, 31), (9, 2), (1, 5), (3, 1), (3, 2), (2, 10), (10, 8),
  (3, 2), (5, 1), (4, 2), (27, 1)]⟩, ⟨1, -232, [(305, 1)]⟩, ⟨1, -300, [(383, 1)]⟩,
  ⟨1, 195, [(384, 1)]⟩, ⟨1, 97, [(405, 1)]⟩, ⟨1, 163, [(410, 1)]⟩, ⟨1, 130, [(414, 1), (476, 3)]⟩,
  ⟨1, 56, [(447, 1)]⟩, ⟨1, -2, [(454, 1), (2, 1), (2, 1), (38, 1)]⟩, ⟨1, -79, [(477, 1)]⟩,
  ⟨1, 10815, [(575, 2)]⟩, ⟨1, 10783, [(592, 1)]⟩, ⟨1, 10780, [(593, 1)]⟩, ⟨1, 10782, [(594, 1)]⟩,
  ⟨1, -210, [(595, 1)]⟩, ⟨1, -206, [(596, 1)]⟩, ⟨1, -205, [(598, 2), (8, 1)]⟩,
  ⟨1, -202, [(601, 1)]⟩, ⟨1, -203, [(603, 1)]⟩, ⟨1, 42319, [(604, 1)]⟩, ⟨1, 42315, [(609, 1)]⟩,
  ⟨1, -207, [(611, 1)]⟩, ⟨1, 42280, [(613, 1)]⟩, ⟨1, 42308, [(614, 1), (3, 1)]⟩,
  ⟨1, -209, [(616, 1)]⟩, ⟨1, -211, [(617, 1), (5, 1)]⟩, ⟨1, 10743, [(619, 1)]⟩,
  ⟨1, 42305, [(620, 1)]⟩, ⟨1, 10749, [(625, 1)]⟩, ⟨1, -213, [(626, 1)]⟩, ⟨1, -214, [(629, 1)]⟩,
  ⟨1, 10727, [(637, 1)]⟩, ⟨1, -218, [(640, 1), (2, 1), (4, 1)]⟩, ⟨1, 42307, [(642, 1)]⟩,
  ⟨1, 42282, [(647, 1)]⟩, ⟨1, -69, [(649, 1)]⟩, ⟨1, -217, [(650, 2)]⟩, ⟨1, -71, [(652, 1)]⟩,
  ⟨1, -219, [(658, 1)]⟩, ⟨1, 42261, [(669, 1)]⟩, ⟨1, 42258, [(670, 1)]⟩, ⟨1, 84, [(837, 1)]⟩,
  ⟨1, -38, [(940, 1)]⟩, ⟨1, -37, [(941, 3)]⟩, ⟨1, -31, [(962, 1)]⟩, ⟨1, -64, [(972, 1),
  (67827, 51)]⟩, ⟨1, -63, [(973, 2)]⟩, ⟨1, -62, [(976, 1)]⟩, ⟨1, -57, [(977, 1)]⟩,
  ⟨1, -47, [(981, 1)]⟩, ⟨1, -54, [(982, 1)]⟩, ⟨1, -8, [(983, 1), (4128, 6)]⟩, ⟨1, -86, [(1008, 1)]⟩,
  ⟨1, -80, [(1009, 1), (94, 16)]⟩, ⟨1, 7, [(1010, 1), (7154, 1)]⟩, ⟨1, -116, [(1011, 1)]⟩,
  ⟨1, -96, [(1013, 1)]⟩, ⟨1, -15, [(1231, 1)]⟩, ⟨1, -48, [(1377, 38), (9897, 48)]⟩,
  ⟨1, 3008, [(4304, 43), (2, 3)]⟩, ⟨1, -6254, [(7296, 1)]⟩, ⟨1, -6253, [(7297, 1)]⟩,
  ⟨1, -6244, [(7298, 1)]⟩, ⟨1, -6242, [(7299, 2)]⟩, ⟨1, -6243, [(7301, 1)]⟩,
  ⟨1, -6236, [(7302, 1)]⟩, ⟨1, -6181, [(7303, 1)]⟩, ⟨1, 35266, [(7304, 1)]⟩,
  ⟨1, 35332, [(7545, 1)]⟩, ⟨1, 3814, [(7549, 1)]⟩, ⟨1, 35384, [(7566, 1)]⟩, ⟨1, -59, [(7835, 1)]⟩,
  ⟨1, 8, [(7936, 8), (8, 6), (10, 8), (8, 8), (8, 6), (26, 8), (24, 8), (8, 8), (8, 8), (8, 2),
  (30, 2), (14, 2)]⟩, ⟨2, 8, [(8017, 4)]⟩, ⟨1, 74, [(8048, 2)]⟩, ⟨1, 86, [(8050, 4)]⟩,
  ⟨1, 100, [(8054, 2)]⟩, ⟨1, 128, [(8056, 2)]⟩, ⟨1, 112, [(8058, 2)]⟩, ⟨1, 126, [(8060, 2)]⟩,
  ⟨1, 9, [(8115, 1), (15, 1), (47, 1)]⟩, ⟨1, -7205, [(8126, 1)]⟩, ⟨1, -28, [(8526, 1)]⟩,
  ⟨1, -16, [(8560, 16)]⟩, ⟨1, -26, [(9424, 26)]⟩, ⟨1, -10795, [(11365, 1)]⟩,
  ⟨1, -10792, [(11366, 1)]⟩, ⟨1, -7264, [(11520, 38), (1, 1), (5, 1)]⟩, ⟨1, 48, [(42900, 1)]⟩,
  ⟨1, -928, [(43859, 1)]⟩, ⟨1, -38864, [(43888, 80)]⟩, ⟨1, -40, [(66600, 40), (136, 36)]⟩,
  ⟨1, -39, [(66967, 11), (1, 15), (1, 7), (1, 2)]⟩, ⟨1, -34, [(125218, 34)]⟩]

def lower : List CaseShift := [
  ⟨1, 32, [(65, 26), (101, 23), (1, 7), (690, 17), (1, 9), (100, 32), (64241, 26), (6501, 32),
  (21888, 32)]⟩, ⟨2, 1, [(256, 24), (2, 3), (1, 8), (1, 23), (1, 3), (3, 2), (1, 1), (2, 1), (4, 1),
  (5, 1), (6, 3), (1, 1), (3, 1), (1, 1), (2, 2), (1, 1), (2, 1), (7, 1), (1, 1), (1, 9), (1, 9),
  (2, 2), (2, 20), (2, 9), (7, 1), (4, 1), (3, 5), (288, 2), (2, 1), (96, 12), (7, 1), (1, 1),
  (100, 17), (8, 27), (1, 7), (1, 48), (6352, 75), (10, 48), (643, 1), (2779, 1), (5, 3), (5, 1),
  (1, 1), (9, 50), (7, 2), (3, 1), (31052, 23), (18, 14), (134, 7), (2, 31), (9, 2), (1, 5), (3, 1),
  (3, 2), (2, 10), (10, 8), (3, 2), (5, 1), (4, 2), (27, 1)]⟩, ⟨1, -199, [(304, 1)]⟩,
  ⟨1, -121, [(376, 1)]⟩, ⟨1, 210, [(385, 1)]⟩, ⟨1, 206, [(390, 1)]⟩, ⟨1, 205, [(393, 2), (8, 1)]⟩,
  ⟨1, 79, [(398, 1)]⟩, ⟨1, 202, [(399, 1)]⟩, ⟨1, 203, [(400, 1)]⟩, ⟨1, 207, [(404, 1)]⟩,
  ⟨1, 211, [(406, 1), (5, 1)]⟩, ⟨1, 209, [(407, 1)]⟩, ⟨1, 213, [(413, 1)]⟩, ⟨1, 214, [(415, 1)]⟩,
  ⟨1, 218, [(422, 1), (2, 1), (4, 1)]⟩, ⟨1, 217, [(433, 2)]⟩, ⟨1, 219, [(439, 1)]⟩,
  ⟨1, 2, [(452, 1), (2, 1), (2, 1), (38, 1)]⟩, ⟨1, -97, [(502, 1)]⟩, ⟨1, -56, [(503, 1)]⟩,
  ⟨1, -130, [(544, 1), (476, 3)]⟩, ⟨1, 10795, [(570, 1)]⟩, ⟨1, -163, [(573, 1)]⟩,
  ⟨1, 10792, [(574, 1)]⟩, ⟨1, -195, [(579, 1)]⟩, ⟨1, 69, [(580, 1)]⟩, ⟨1, 71, [(581, 1)]⟩,
  ⟨1, 116, [(895, 1)]⟩, ⟨1, 38, [(902, 1)]⟩, ⟨1, 37, [(904, 3)]⟩, ⟨1, 64, [(908, 1), (67827, 51)]⟩,
  ⟨1, 63, [(910, 2)]⟩, ⟨1, 8, [(975, 1), (4128, 6)]⟩, ⟨1, -60, [(1012, 1)]⟩, ⟨1, -7, [(1017, 1),
  (7154, 1)]⟩, ⟨1, 80, [(1024, 16)]⟩, ⟨1, 15, [(1216, 1)]⟩, ⟨1, 48, [(1329, 38), (9897, 48)]⟩,
  ⟨1, 7264, [(4256, 38), (1, 1), (5, 1)]⟩, ⟨1, 38864, [(5024, 80)]⟩, ⟨1, -3008, [(7312, 43),
  (2, 3)]⟩, ⟨1, -7615, [(7838, 1)]⟩, ⟨1, -8, [(7944, 8), (8, 6), (10, 8), (8, 8), (8, 6), (26, 8),
  (24, 8), (8, 8), (8, 8), (8, 2), (30, 2), (14, 2)]⟩, ⟨2, -8, [(8025, 4)]⟩, ⟨1, -74, [(8122, 2)]⟩,
  ⟨1, -9, [(8124, 1), (15, 1), (47, 1)]⟩, ⟨1, -86, [(8136, 4)]⟩, ⟨1, -100, [(8154, 2)]⟩,
  ⟨1, -112, [(8170, 2)]⟩, ⟨1, -128, [(8184, 2)]⟩, ⟨1, -126, [(8186, 2)]⟩, ⟨1, -7517, [(8486, 1)]⟩,
  ⟨1, -8383, [(8490, 1)]⟩, ⟨1, -8262, [(8491, 1)]⟩, ⟨1, 28, [(8498, 1)]⟩, ⟨1, 16, [(8544, 16)]⟩,
  ⟨1, 26, [(9398, 26)]⟩, ⟨1, -10743, [(11362, 1)]⟩, ⟨1, -3814, [(11363, 1)]⟩,
  ⟨1, -10727, [(11364, 1)]⟩, ⟨1, -10780, [(11373, 1)]⟩, ⟨1, -10749, [(11374, 1)]⟩,
  ⟨1, -10783, [(11375, 1)]⟩, ⟨1, -10782, [(11376, 1)]⟩, ⟨1, -10815, [(11390, 2)]⟩,
  ⟨1, -35332, [(42877, 1)]⟩, ⟨1, -42280, [(42893, 1)]⟩, ⟨1, -42308, [(42922, 1), (3, 1)]⟩,
  ⟨1, -42319, [(42923, 1)]⟩, ⟨1, -42315, [(42924, 1)]⟩, ⟨1, -42305, [(42925, 1)]⟩,
  ⟨1, -42258, [(42928, 1)]⟩, ⟨1, -42282, [(42929, 1)]⟩, ⟨1, -42261, [(42930, 1)]⟩,
  ⟨1, 928, [(42931, 1)]⟩, ⟨1, -48, [(42948, 1)]⟩, ⟨1, -42307, [(42949, 1)]⟩,
  ⟨1, -35384, [(42950, 1)]⟩, ⟨1, 40, [(66560, 40), (136, 36)]⟩, ⟨1, 39, [(66928, 11), (1, 15),
  (1, 7), (1, 2)]⟩, ⟨1, 34, [(125184, 34)]⟩]

end CaseShift

namespace Text

def upperCode (n : Nat) : Nat := CaseShift.map CaseShift.upper n

def lowerCode (n : Nat) : Nat := CaseShift.map CaseShift.lower n

def isAscii (t : Text) : Bool := t.all (· < 0x80)

def toUpper (t : Text) : Text :=
  if isAscii t then t.map fun b => if isLower b then b - 32 else b else mapCodes upperCode t

def toLower (t : Text) : Text :=
  if isAscii t then t.map fun b => if isUpper b then b + 32 else b else mapCodes lowerCode t

def capitalize (t : Text) : Text :=
  let r := rune t
  if r.size = 0 then t else ofCode (upperCode r.code) ++ t.drop r.size

/-- The one lower-case ASCII letter that a code stands for in any case, or the code itself. Two
letters outside ASCII are forms of `k` and `s`. -/
private def foldCode (n : Nat) : Nat :=
  if n = 0x212A then 0x6B
  else if n = 0x17F then 0x73
  else if 0x41 ≤ n && n ≤ 0x5A then n + 0x20
  else n

def spells (word t : Text) : Bool := (runes t).map (foldCode ·.code) = word.map UInt8.toNat

end Text
end LabelHooks
