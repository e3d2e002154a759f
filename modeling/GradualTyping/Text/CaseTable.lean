/-
# Case tables

Data of the Unicode character database, version 17: which characters change
under upper and lower case, and the two properties that decide the final form of
the Greek sigma.  A `Run` says that the characters `first`, `first + stride`, …,
`last` change by `delta`; characters whose image has several characters are
listed with it.  Runs are in increasing order.
-/

namespace GradualTyping
namespace Text

/-- Characters that change by one offset. -/
structure Run where
  first : Nat
  last : Nat
  stride : Nat
  delta : Int

/-- One character. -/
def one (c : Nat) (delta : Int) : Run := ⟨c, c, 1, delta⟩

/-- Characters in a row. -/
def run (first last : Nat) (delta : Int) : Run := ⟨first, last, 1, delta⟩

/-- Every other character: the second of each pair, with the first as its upper case. -/
def pairs (first last : Nat) : Run := ⟨first, last, 2, -1⟩

/-- The characters whose upper case is one other character. -/
def upperRuns : Array Run := #[
  run 0x61 0x7A (-32), one 0xB5 743, run 0xE0 0xF6 (-32), run 0xF8 0xFE (-32), one 0xFF 121,
  pairs 0x101 0x12F, one 0x131 (-232), pairs 0x133 0x137, pairs 0x13A 0x148, pairs 0x14B 0x177,
  pairs 0x17A 0x17E, one 0x17F (-300), one 0x180 195, pairs 0x183 0x185, pairs 0x188 0x188,
  pairs 0x18C 0x18C, pairs 0x192 0x192, one 0x195 97, pairs 0x199 0x199, one 0x19A 163,
  one 0x19B 42561, one 0x19E 130, pairs 0x1A1 0x1A5, pairs 0x1A8 0x1A8, pairs 0x1AD 0x1AD,
  pairs 0x1B0 0x1B0, pairs 0x1B4 0x1B6, pairs 0x1B9 0x1B9, pairs 0x1BD 0x1BD, one 0x1BF 56,
  pairs 0x1C5 0x1C5, one 0x1C6 (-2), pairs 0x1C8 0x1C8, one 0x1C9 (-2), pairs 0x1CB 0x1CB,
  one 0x1CC (-2), pairs 0x1CE 0x1DC, one 0x1DD (-79), pairs 0x1DF 0x1EF, pairs 0x1F2 0x1F2,
  one 0x1F3 (-2), pairs 0x1F5 0x1F5, pairs 0x1F9 0x21F, pairs 0x223 0x233, pairs 0x23C 0x23C,
  run 0x23F 0x240 10815, pairs 0x242 0x242, pairs 0x247 0x24F, one 0x250 10783, one 0x251 10780,
  one 0x252 10782, one 0x253 (-210), one 0x254 (-206), run 0x256 0x257 (-205), one 0x259 (-202),
  one 0x25B (-203), one 0x25C 42319, one 0x260 (-205), one 0x261 42315, one 0x263 (-207),
  one 0x264 42343, one 0x265 42280, one 0x266 42308, one 0x268 (-209), one 0x269 (-211),
  one 0x26A 42308, one 0x26B 10743, one 0x26C 42305, one 0x26F (-211), one 0x271 10749,
  one 0x272 (-213), one 0x275 (-214), one 0x27D 10727, one 0x280 (-218), one 0x282 42307,
  one 0x283 (-218), one 0x287 42282, one 0x288 (-218), one 0x289 (-69), run 0x28A 0x28B (-217),
  one 0x28C (-71), one 0x292 (-219), one 0x29D 42261, one 0x29E 42258, one 0x345 84,
  pairs 0x371 0x373, pairs 0x377 0x377, run 0x37B 0x37D 130, one 0x3AC (-38),
  run 0x3AD 0x3AF (-37), run 0x3B1 0x3C1 (-32), one 0x3C2 (-31), run 0x3C3 0x3CB (-32),
  one 0x3CC (-64), run 0x3CD 0x3CE (-63), one 0x3D0 (-62), one 0x3D1 (-57), one 0x3D5 (-47),
  one 0x3D6 (-54), one 0x3D7 (-8), pairs 0x3D9 0x3EF, one 0x3F0 (-86), one 0x3F1 (-80),
  one 0x3F2 7, one 0x3F3 (-116), one 0x3F5 (-96), pairs 0x3F8 0x3F8, pairs 0x3FB 0x3FB,
  run 0x430 0x44F (-32), run 0x450 0x45F (-80), pairs 0x461 0x481, pairs 0x48B 0x4BF,
  pairs 0x4C2 0x4CE, one 0x4CF (-15), pairs 0x4D1 0x52F, run 0x561 0x586 (-48),
  run 0x10D0 0x10FA 3008, run 0x10FD 0x10FF 3008, run 0x13F8 0x13FD (-8), one 0x1C80 (-6254),
  one 0x1C81 (-6253), one 0x1C82 (-6244), run 0x1C83 0x1C84 (-6242), one 0x1C85 (-6243),
  one 0x1C86 (-6236), one 0x1C87 (-6181), one 0x1C88 35266, pairs 0x1C8A 0x1C8A, one 0x1D79 35332,
  one 0x1D7D 3814, one 0x1D8E 35384, pairs 0x1E01 0x1E95, one 0x1E9B (-59), pairs 0x1EA1 0x1EFF,
  run 0x1F00 0x1F07 8, run 0x1F10 0x1F15 8, run 0x1F20 0x1F27 8, run 0x1F30 0x1F37 8,
  run 0x1F40 0x1F45 8, ⟨0x1F51, 0x1F57, 2, 8⟩, run 0x1F60 0x1F67 8, run 0x1F70 0x1F71 74,
  run 0x1F72 0x1F75 86, run 0x1F76 0x1F77 100, run 0x1F78 0x1F79 128, run 0x1F7A 0x1F7B 112,
  run 0x1F7C 0x1F7D 126, run 0x1FB0 0x1FB1 8, one 0x1FBE (-7205), run 0x1FD0 0x1FD1 8,
  run 0x1FE0 0x1FE1 8, one 0x1FE5 7, one 0x214E (-28), run 0x2170 0x217F (-16),
  pairs 0x2184 0x2184, run 0x24D0 0x24E9 (-26), run 0x2C30 0x2C5F (-48), pairs 0x2C61 0x2C61,
  one 0x2C65 (-10795), one 0x2C66 (-10792), pairs 0x2C68 0x2C6C, pairs 0x2C73 0x2C73,
  pairs 0x2C76 0x2C76, pairs 0x2C81 0x2CE3, pairs 0x2CEC 0x2CEE, pairs 0x2CF3 0x2CF3,
  run 0x2D00 0x2D25 (-7264), one 0x2D27 (-7264), one 0x2D2D (-7264), pairs 0xA641 0xA66D,
  pairs 0xA681 0xA69B, pairs 0xA723 0xA72F, pairs 0xA733 0xA76F, pairs 0xA77A 0xA77C,
  pairs 0xA77F 0xA787, pairs 0xA78C 0xA78C, pairs 0xA791 0xA793, one 0xA794 48,
  pairs 0xA797 0xA7A9, pairs 0xA7B5 0xA7C3, pairs 0xA7C8 0xA7CA, pairs 0xA7CD 0xA7DB,
  pairs 0xA7F6 0xA7F6, one 0xAB53 (-928), run 0xAB70 0xABBF (-38864), run 0xFF41 0xFF5A (-32),
  run 0x10428 0x1044F (-40), run 0x104D8 0x104FB (-40), run 0x10597 0x105A1 (-39),
  run 0x105A3 0x105B1 (-39), run 0x105B3 0x105B9 (-39), run 0x105BB 0x105BC (-39),
  run 0x10CC0 0x10CF2 (-64), run 0x10D70 0x10D85 (-32), run 0x118C0 0x118DF (-32),
  run 0x16E60 0x16E7F (-32), run 0x16EBB 0x16ED3 (-27), run 0x1E922 0x1E943 (-34)]

/-- The characters whose lower case is one other character, though not one of which they are
the upper case. -/
def lowerRuns : Array Run := #[
  one 0x1C4 2, one 0x1C5 1, one 0x1C7 2, one 0x1C8 1, one 0x1CA 2, one 0x1CB 1, one 0x1F1 2,
  one 0x1F2 1, ⟨0x399, 0x39C, 3, 32⟩, one 0x3A3 32, one 0x3F4 (-60), one 0x1E9E (-7615),
  run 0x1F88 0x1F8F (-8), run 0x1F98 0x1F9F (-8), run 0x1FA8 0x1FAF (-8), one 0x1FBC (-9),
  one 0x1FCC (-9), one 0x1FFC (-9), one 0x2126 (-7517), one 0x212A (-8383), one 0x212B (-8262),
  one 0xA64A 1]

/-- Eight letters in a row whose upper case are eight letters in a row, each with an iota. -/
def withIota (first image : Nat) : Array (Nat × List Nat) :=
  (Array.range 8).map fun i => (first + i, [image + i, 0x399])

/-- The characters whose upper case has several characters. -/
def upperExpansions : Array (Nat × List Nat) := #[
  (0xDF, [0x53, 0x53]), (0x149, [0x2BC, 0x4E]), (0x1F0, [0x4A, 0x30C]),
  (0x390, [0x399, 0x308, 0x301]), (0x3B0, [0x3A5, 0x308, 0x301]), (0x587, [0x535, 0x552]),
  (0x1E96, [0x48, 0x331]), (0x1E97, [0x54, 0x308]), (0x1E98, [0x57, 0x30A]),
  (0x1E99, [0x59, 0x30A]), (0x1E9A, [0x41, 0x2BE]), (0x1F50, [0x3A5, 0x313]),
  (0x1F52, [0x3A5, 0x313, 0x300]), (0x1F54, [0x3A5, 0x313, 0x301]),
  (0x1F56, [0x3A5, 0x313, 0x342]), (0x1FB2, [0x1FBA, 0x399]), (0x1FB3, [0x391, 0x399]),
  (0x1FB4, [0x386, 0x399]), (0x1FB6, [0x391, 0x342]), (0x1FB7, [0x391, 0x342, 0x399]),
  (0x1FBC, [0x391, 0x399]), (0x1FC2, [0x1FCA, 0x399]), (0x1FC3, [0x397, 0x399]),
  (0x1FC4, [0x389, 0x399]), (0x1FC6, [0x397, 0x342]), (0x1FC7, [0x397, 0x342, 0x399]),
  (0x1FCC, [0x397, 0x399]), (0x1FD2, [0x399, 0x308, 0x300]), (0x1FD3, [0x399, 0x308, 0x301]),
  (0x1FD6, [0x399, 0x342]), (0x1FD7, [0x399, 0x308, 0x342]), (0x1FE2, [0x3A5, 0x308, 0x300]),
  (0x1FE3, [0x3A5, 0x308, 0x301]), (0x1FE4, [0x3A1, 0x313]), (0x1FE6, [0x3A5, 0x342]),
  (0x1FE7, [0x3A5, 0x308, 0x342]), (0x1FF2, [0x1FFA, 0x399]), (0x1FF3, [0x3A9, 0x399]),
  (0x1FF4, [0x38F, 0x399]), (0x1FF6, [0x3A9, 0x342]), (0x1FF7, [0x3A9, 0x342, 0x399]),
  (0x1FFC, [0x3A9, 0x399]), (0xFB00, [0x46, 0x46]), (0xFB01, [0x46, 0x49]), (0xFB02, [0x46, 0x4C]),
  (0xFB03, [0x46, 0x46, 0x49]), (0xFB04, [0x46, 0x46, 0x4C]), (0xFB05, [0x53, 0x54]),
  (0xFB06, [0x53, 0x54]), (0xFB13, [0x544, 0x546]), (0xFB14, [0x544, 0x535]),
  (0xFB15, [0x544, 0x53B]), (0xFB16, [0x54E, 0x546]), (0xFB17, [0x544, 0x53D])] ++
  withIota 0x1F80 0x1F08 ++ withIota 0x1F88 0x1F08 ++ withIota 0x1F90 0x1F28 ++
  withIota 0x1F98 0x1F28 ++ withIota 0x1FA0 0x1F68 ++ withIota 0x1FA8 0x1F68

/-- The characters whose lower case has several characters. -/
def lowerExpansions : Array (Nat × List Nat) := #[
  (0x130, [0x69, 0x307])]

/-- The stretches of the property Cased. -/
def casedStretches : List Nat := [
  65, 26, 6, 26, 47, 1, 10, 1, 4, 1, 5, 23, 1, 31, 1, 195, 1, 4, 4, 208, 2, 35, 7, 2, 30, 5, 96,
  1, 42, 4, 2, 2, 2, 4, 1, 1, 6, 1, 1, 3, 1, 1, 1, 20, 1, 83, 1, 139, 8, 166, 1, 38, 9, 41, 2839,
  38, 1, 1, 5, 1, 2, 43, 1, 4, 672, 86, 2, 6, 2178, 11, 5, 43, 2, 3, 64, 192, 64, 278, 2, 6, 2,
  38, 2, 6, 2, 8, 1, 1, 1, 1, 1, 1, 1, 31, 2, 53, 1, 7, 1, 1, 3, 3, 1, 7, 3, 4, 2, 6, 4, 13, 5, 3,
  1, 7, 116, 1, 13, 1, 16, 13, 101, 1, 4, 1, 2, 10, 1, 1, 3, 5, 6, 1, 1, 1, 1, 1, 1, 4, 1, 6, 4,
  1, 2, 4, 5, 5, 4, 1, 17, 32, 3, 2, 817, 52, 1814, 229, 6, 4, 3, 2, 12, 38, 1, 1, 5, 1, 30994,
  46, 18, 30, 132, 102, 3, 4, 1, 77, 20, 6, 1, 3, 821, 43, 1, 14, 6, 80, 20288, 7, 12, 5, 1033,
  26, 6, 26, 1189, 80, 96, 36, 4, 36, 116, 11, 1, 15, 1, 7, 1, 2, 1, 11, 1, 15, 1, 7, 1, 2, 451,
  1, 2, 3, 1, 42, 1, 9, 1221, 51, 13, 51, 93, 22, 10, 22, 2842, 64, 21856, 64, 32, 25, 2, 25,
  25900, 85, 1, 71, 1, 2, 2, 1, 2, 2, 2, 4, 1, 12, 1, 1, 1, 7, 1, 65, 1, 4, 2, 8, 1, 7, 1, 28, 1,
  4, 1, 5, 1, 1, 3, 7, 1, 340, 2, 25, 1, 25, 1, 31, 1, 25, 1, 31, 1, 25, 1, 31, 1, 25, 1, 31, 1,
  25, 1, 8, 1844, 10, 1, 20, 6, 6, 261, 62, 2194, 68, 2028, 26, 6, 26, 6, 26]

/-- The stretches of the property Case_Ignorable. -/
def ignorableStretches : List Nat := [
  39, 1, 6, 1, 11, 1, 35, 1, 1, 1, 71, 1, 4, 1, 1, 1, 4, 1, 2, 2, 503, 192, 4, 2, 4, 1, 9, 2, 1,
  1, 251, 7, 207, 1, 5, 1, 49, 45, 1, 1, 1, 2, 1, 2, 1, 1, 44, 1, 11, 6, 10, 11, 1, 1, 35, 1, 10,
  21, 16, 1, 101, 8, 1, 10, 1, 4, 33, 1, 1, 1, 30, 27, 91, 11, 58, 11, 4, 1, 2, 1, 24, 24, 43, 3,
  44, 1, 7, 2, 5, 9, 41, 58, 55, 1, 1, 1, 4, 8, 4, 1, 3, 7, 10, 2, 13, 1, 15, 1, 58, 1, 4, 4, 8,
  1, 20, 2, 26, 1, 2, 2, 57, 1, 4, 2, 4, 2, 2, 3, 3, 1, 30, 2, 3, 1, 11, 2, 57, 1, 4, 5, 1, 2, 4,
  1, 20, 2, 22, 6, 1, 1, 58, 1, 2, 1, 1, 4, 8, 1, 7, 2, 11, 2, 30, 1, 61, 1, 12, 1, 50, 1, 3, 1,
  55, 1, 1, 3, 5, 3, 1, 4, 7, 2, 11, 2, 29, 1, 58, 1, 2, 1, 6, 1, 5, 2, 20, 2, 28, 2, 57, 2, 4, 4,
  8, 1, 20, 2, 29, 1, 72, 1, 7, 3, 1, 1, 90, 1, 2, 7, 11, 9, 98, 1, 2, 9, 9, 1, 1, 7, 73, 2, 27,
  1, 1, 1, 1, 1, 55, 14, 1, 5, 1, 2, 5, 11, 1, 36, 9, 1, 102, 4, 1, 6, 1, 2, 2, 2, 25, 2, 4, 3,
  16, 4, 13, 1, 2, 2, 6, 1, 15, 1, 94, 1, 608, 3, 946, 3, 29, 2, 30, 2, 30, 2, 64, 2, 1, 7, 8, 1,
  2, 11, 3, 1, 5, 1, 45, 5, 51, 1, 65, 2, 34, 1, 118, 3, 4, 2, 9, 1, 6, 3, 219, 2, 2, 1, 58, 1, 1,
  7, 1, 1, 1, 1, 2, 8, 6, 10, 2, 1, 39, 1, 8, 46, 2, 12, 20, 4, 48, 1, 1, 5, 1, 1, 5, 1, 40, 9,
  12, 2, 32, 4, 2, 2, 1, 3, 56, 1, 1, 2, 3, 1, 1, 3, 58, 8, 2, 2, 64, 6, 82, 3, 1, 13, 1, 7, 4, 1,
  6, 1, 3, 2, 50, 63, 13, 1, 34, 101, 445, 1, 1, 3, 11, 3, 13, 3, 13, 3, 13, 2, 12, 5, 8, 2, 10,
  1, 2, 1, 2, 5, 49, 5, 1, 10, 1, 1, 13, 1, 16, 13, 51, 33, 2955, 2, 113, 3, 125, 1, 15, 1, 96,
  32, 47, 1, 469, 1, 36, 4, 3, 5, 5, 1, 93, 6, 93, 3, 28438, 1, 1250, 6, 270, 1, 98, 4, 1, 10, 1,
  1, 28, 4, 80, 2, 14, 34, 78, 1, 23, 3, 102, 4, 3, 2, 8, 1, 3, 1, 4, 1, 25, 2, 5, 1, 151, 2, 26,
  18, 13, 1, 38, 8, 25, 11, 46, 3, 48, 1, 2, 4, 2, 2, 17, 1, 21, 2, 66, 6, 2, 2, 2, 2, 12, 1, 8,
  1, 35, 1, 11, 1, 51, 1, 1, 3, 2, 2, 5, 2, 1, 1, 27, 1, 14, 2, 5, 2, 1, 1, 100, 5, 9, 3, 121, 1,
  2, 1, 4, 1, 20272, 1, 147, 17, 573, 16, 3, 1, 12, 16, 34, 1, 2, 1, 169, 1, 7, 1, 6, 1, 11, 1,
  35, 1, 1, 1, 47, 1, 45, 2, 67, 1, 21, 3, 513, 1, 226, 1, 149, 5, 1029, 6, 1, 42, 1, 9, 582, 3,
  1, 2, 5, 4, 40, 3, 4, 1, 165, 2, 573, 4, 38, 1, 26, 5, 1, 1, 315, 2, 24, 1, 52, 6, 70, 11, 49,
  4, 123, 1, 54, 15, 41, 1, 2, 2, 10, 3, 49, 4, 2, 2, 2, 1, 4, 1, 10, 1, 50, 3, 36, 5, 1, 8, 62,
  1, 12, 2, 52, 9, 10, 4, 2, 1, 95, 3, 2, 1, 1, 2, 6, 1, 2, 1, 157, 1, 3, 8, 21, 2, 57, 2, 3, 1,
  37, 7, 3, 5, 70, 6, 13, 1, 1, 1, 1, 1, 14, 2, 85, 8, 2, 3, 1, 1, 23, 1, 84, 6, 1, 1, 4, 2, 1, 2,
  238, 4, 6, 2, 1, 2, 27, 2, 85, 8, 2, 1, 1, 2, 106, 1, 1, 1, 2, 6, 1, 1, 101, 1, 1, 1, 2, 4, 1,
  5, 259, 9, 1, 2, 256, 2, 1, 1, 4, 1, 144, 4, 2, 2, 4, 1, 32, 10, 40, 6, 2, 4, 8, 1, 9, 6, 2, 3,
  46, 13, 1, 2, 198, 1, 1, 3, 1, 1, 201, 7, 1, 6, 1, 1, 82, 22, 2, 7, 1, 2, 1, 2, 122, 6, 3, 1, 1,
  2, 1, 7, 1, 1, 72, 2, 3, 1, 1, 1, 65, 1, 281, 2, 11, 2, 52, 5, 5, 1, 1, 1, 23, 1, 5333, 17, 6,
  15, 11464, 12, 3, 3, 2496, 5, 59, 7, 9, 4, 508, 3, 40, 2, 482, 1, 63, 17, 64, 2, 1, 2, 13, 2,
  16380, 4, 1, 7, 1, 2, 3230, 2, 1, 4, 4700, 46, 2, 23, 544, 3, 9, 16, 2, 7, 30, 4, 148, 3, 1979,
  55, 4, 50, 8, 1, 14, 1, 22, 5, 1, 15, 1360, 7, 1, 17, 2, 7, 1, 2, 1, 5, 5, 62, 33, 1, 160, 14,
  368, 1, 61, 4, 507, 5, 254, 2, 243, 1, 2, 1, 7, 2, 5, 1, 9, 1, 464, 7, 109, 8, 2735, 5, 789505,
  1, 30, 96, 128, 240]

end Text
end GradualTyping
