/-!
# Letter case beyond ASCII

The letters beyond ASCII that change under a change of case, as runs of code points: every
`stride`-th code point from `first` to `last` moves by `offset`.  A few letters turn into several.
-/

namespace BasicScript.Text

/-- A run of code points that move by the same offset. -/
structure CaseRun where
  first : Nat
  last : Nat
  stride : Nat
  offset : Int

def CaseRun.holds (run : CaseRun) (code : Nat) : Bool :=
  run.first ≤ code && code ≤ run.last && (code - run.first) % run.stride == 0

/-- Runs behind a code point, each with the gap in front of it, its steps, its stride and its
offset. -/
def CaseRun.ofGaps (start : Nat) : List (Nat × Nat × Nat × Int) → List CaseRun
  | [] => []
  | (gap, steps, stride, offset) :: rest =>
    let last := start + gap + steps * stride
    ⟨start + gap, last, stride, offset⟩ :: ofGaps last rest

/-- Letters with one capital form. -/
def capitalRuns : List CaseRun := CaseRun.ofGaps 0
  [(181, 0, 1, 743), (43, 22, 1, -32), (2, 6, 1, -32), (1, 0, 1, 121), (2, 23, 2, -1),
   (2, 0, 1, -232), (2, 2, 2, -1), (3, 7, 2, -1), (3, 22, 2, -1), (3, 2, 2, -1), (1, 0, 1, -300),
   (1, 0, 1, 195), (3, 1, 2, -1), (3, 0, 1, -1), (4, 0, 1, -1), (6, 0, 1, -1), (3, 0, 1, 97),
   (4, 0, 1, -1), (1, 0, 1, 163), (4, 0, 1, 130), (3, 2, 2, -1), (3, 0, 1, -1), (5, 0, 1, -1),
   (3, 0, 1, -1), (4, 1, 2, -1), (3, 0, 1, -1), (4, 0, 1, -1), (2, 0, 1, 56), (6, 0, 1, -1),
   (1, 0, 1, -2), (2, 0, 1, -1), (1, 0, 1, -2), (2, 0, 1, -1), (1, 0, 1, -2), (2, 7, 2, -1),
   (1, 0, 1, -79), (2, 8, 2, -1), (3, 0, 1, -1), (1, 0, 1, -2), (2, 0, 1, -1), (4, 19, 2, -1),
   (4, 8, 2, -1), (9, 0, 1, -1), (3, 1, 1, 10815), (2, 0, 1, -1), (5, 4, 2, -1), (1, 0, 1, 10783),
   (1, 0, 1, 10780), (1, 0, 1, 10782), (1, 0, 1, -210), (1, 0, 1, -206), (2, 1, 1, -205),
   (2, 0, 1, -202), (2, 0, 1, -203), (1, 0, 1, 42319), (4, 0, 1, -205), (1, 0, 1, 42315),
   (2, 0, 1, -207), (2, 0, 1, 42280), (1, 0, 1, 42308), (2, 0, 1, -209), (1, 0, 1, -211),
   (1, 0, 1, 42308), (1, 0, 1, 10743), (1, 0, 1, 42305), (3, 0, 1, -211), (2, 0, 1, 10749),
   (1, 0, 1, -213), (3, 0, 1, -214), (8, 0, 1, 10727), (3, 0, 1, -218), (2, 0, 1, 42307),
   (1, 0, 1, -218), (4, 0, 1, 42282), (1, 0, 1, -218), (1, 0, 1, -69), (1, 1, 1, -217),
   (1, 0, 1, -71), (6, 0, 1, -219), (11, 0, 1, 42261), (1, 0, 1, 42258), (167, 0, 1, 84),
   (44, 1, 2, -1), (4, 0, 1, -1), (4, 2, 1, 130), (47, 0, 1, -38), (1, 2, 1, -37), (2, 16, 1, -32),
   (1, 0, 1, -31), (1, 8, 1, -32), (1, 0, 1, -64), (1, 1, 1, -63), (2, 0, 1, -62), (1, 0, 1, -57),
   (4, 0, 1, -47), (1, 0, 1, -54), (1, 0, 1, -8), (2, 11, 2, -1), (1, 0, 1, -86), (1, 0, 1, -80),
   (1, 0, 1, 7), (1, 0, 1, -116), (2, 0, 1, -96), (3, 0, 1, -1), (3, 0, 1, -1), (53, 31, 1, -32),
   (1, 15, 1, -80), (2, 16, 2, -1), (10, 26, 2, -1), (3, 6, 2, -1), (1, 0, 1, -15), (2, 47, 2, -1),
   (50, 37, 1, -48), (2890, 42, 1, 3008), (3, 2, 1, 3008), (761, 5, 1, -8), (2179, 0, 1, -6254),
   (1, 0, 1, -6253), (1, 0, 1, -6244), (1, 1, 1, -6242), (1, 0, 1, -6243), (1, 0, 1, -6236),
   (1, 0, 1, -6181), (1, 0, 1, 35266), (241, 0, 1, 35332), (4, 0, 1, 3814), (17, 0, 1, 35384),
   (115, 74, 2, -1), (6, 0, 1, -59), (6, 47, 2, -1), (1, 7, 1, 8), (9, 5, 1, 8), (11, 7, 1, 8),
   (9, 7, 1, 8), (9, 5, 1, 8), (12, 3, 2, 8), (9, 7, 1, 8), (9, 1, 1, 74), (1, 3, 1, 86),
   (1, 1, 1, 100), (1, 1, 1, 128), (1, 1, 1, 112), (1, 1, 1, 126), (51, 1, 1, 8), (13, 0, 1, -7205),
   (18, 1, 1, 8), (15, 1, 1, 8), (4, 0, 1, 7), (361, 0, 1, -28), (34, 15, 1, -16), (5, 0, 1, -1),
   (844, 25, 1, -26), (1863, 47, 1, -48), (2, 0, 1, -1), (4, 0, 1, -10795), (1, 0, 1, -10792),
   (2, 2, 2, -1), (7, 0, 1, -1), (3, 0, 1, -1), (11, 49, 2, -1), (9, 1, 2, -1), (5, 0, 1, -1),
   (13, 37, 1, -7264), (2, 0, 1, -7264), (6, 0, 1, -7264), (30996, 22, 2, -1), (20, 13, 2, -1),
   (136, 6, 2, -1), (4, 30, 2, -1), (11, 1, 2, -1), (3, 4, 2, -1), (5, 0, 1, -1), (5, 1, 2, -1),
   (1, 0, 1, 48), (3, 9, 2, -1), (12, 7, 2, -1), (5, 1, 2, -1), (7, 0, 1, -1), (6, 1, 2, -1),
   (29, 0, 1, -1), (861, 0, 1, -928), (29, 79, 1, -38864), (21378, 25, 1, -32), (1230, 39, 1, -40),
   (137, 35, 1, -40), (156, 10, 1, -39), (2, 14, 1, -39), (2, 6, 1, -39), (2, 1, 1, -39),
   (1796, 50, 1, -64), (3022, 31, 1, -32), (21889, 31, 1, -32), (31395, 33, 1, -34)]

/-- Letters whose capital form is several characters. -/
def capitalExpansions : List (Nat × List Nat) :=
  [(0xDF, [0x53, 0x53]), (0x149, [0x2BC, 0x4E]), (0x1F0, [0x4A, 0x30C]),
   (0x390, [0x399, 0x308, 0x301]), (0x3B0, [0x3A5, 0x308, 0x301]), (0x587, [0x535, 0x552]),
   (0x1E96, [0x48, 0x331]), (0x1E97, [0x54, 0x308]), (0x1E98, [0x57, 0x30A]),
   (0x1E99, [0x59, 0x30A]), (0x1E9A, [0x41, 0x2BE]), (0x1F50, [0x3A5, 0x313]),
   (0x1F52, [0x3A5, 0x313, 0x300]), (0x1F54, [0x3A5, 0x313, 0x301]),
   (0x1F56, [0x3A5, 0x313, 0x342]), (0x1F80, [0x1F08, 0x399]), (0x1F81, [0x1F09, 0x399]),
   (0x1F82, [0x1F0A, 0x399]), (0x1F83, [0x1F0B, 0x399]), (0x1F84, [0x1F0C, 0x399]),
   (0x1F85, [0x1F0D, 0x399]), (0x1F86, [0x1F0E, 0x399]), (0x1F87, [0x1F0F, 0x399]),
   (0x1F88, [0x1F08, 0x399]), (0x1F89, [0x1F09, 0x399]), (0x1F8A, [0x1F0A, 0x399]),
   (0x1F8B, [0x1F0B, 0x399]), (0x1F8C, [0x1F0C, 0x399]), (0x1F8D, [0x1F0D, 0x399]),
   (0x1F8E, [0x1F0E, 0x399]), (0x1F8F, [0x1F0F, 0x399]), (0x1F90, [0x1F28, 0x399]),
   (0x1F91, [0x1F29, 0x399]), (0x1F92, [0x1F2A, 0x399]), (0x1F93, [0x1F2B, 0x399]),
   (0x1F94, [0x1F2C, 0x399]), (0x1F95, [0x1F2D, 0x399]), (0x1F96, [0x1F2E, 0x399]),
   (0x1F97, [0x1F2F, 0x399]), (0x1F98, [0x1F28, 0x399]), (0x1F99, [0x1F29, 0x399]),
   (0x1F9A, [0x1F2A, 0x399]), (0x1F9B, [0x1F2B, 0x399]), (0x1F9C, [0x1F2C, 0x399]),
   (0x1F9D, [0x1F2D, 0x399]), (0x1F9E, [0x1F2E, 0x399]), (0x1F9F, [0x1F2F, 0x399]),
   (0x1FA0, [0x1F68, 0x399]), (0x1FA1, [0x1F69, 0x399]), (0x1FA2, [0x1F6A, 0x399]),
   (0x1FA3, [0x1F6B, 0x399]), (0x1FA4, [0x1F6C, 0x399]), (0x1FA5, [0x1F6D, 0x399]),
   (0x1FA6, [0x1F6E, 0x399]), (0x1FA7, [0x1F6F, 0x399]), (0x1FA8, [0x1F68, 0x399]),
   (0x1FA9, [0x1F69, 0x399]), (0x1FAA, [0x1F6A, 0x399]), (0x1FAB, [0x1F6B, 0x399]),
   (0x1FAC, [0x1F6C, 0x399]), (0x1FAD, [0x1F6D, 0x399]), (0x1FAE, [0x1F6E, 0x399]),
   (0x1FAF, [0x1F6F, 0x399]), (0x1FB2, [0x1FBA, 0x399]), (0x1FB3, [0x391, 0x399]),
   (0x1FB4, [0x386, 0x399]), (0x1FB6, [0x391, 0x342]), (0x1FB7, [0x391, 0x342, 0x399]),
   (0x1FBC, [0x391, 0x399]), (0x1FC2, [0x1FCA, 0x399]), (0x1FC3, [0x397, 0x399]),
   (0x1FC4, [0x389, 0x399]), (0x1FC6, [0x397, 0x342]), (0x1FC7, [0x397, 0x342, 0x399]),
   (0x1FCC, [0x397, 0x399]), (0x1FD2, [0x399, 0x308, 0x300]), (0x1FD3, [0x399, 0x308, 0x301]),
   (0x1FD6, [0x399, 0x342]), (0x1FD7, [0x399, 0x308, 0x342]), (0x1FE2, [0x3A5, 0x308, 0x300]),
   (0x1FE3, [0x3A5, 0x308, 0x301]), (0x1FE4, [0x3A1, 0x313]), (0x1FE6, [0x3A5, 0x342]),
   (0x1FE7, [0x3A5, 0x308, 0x342]), (0x1FF2, [0x1FFA, 0x399]), (0x1FF3, [0x3A9, 0x399]),
   (0x1FF4, [0x38F, 0x399]), (0x1FF6, [0x3A9, 0x342]), (0x1FF7, [0x3A9, 0x342, 0x399]),
   (0x1FFC, [0x3A9, 0x399]), (0xFB00, [0x46, 0x46]), (0xFB01, [0x46, 0x49]), (0xFB02, [0x46, 0x4C]),
   (0xFB03, [0x46, 0x46, 0x49]), (0xFB04, [0x46, 0x46, 0x4C]), (0xFB05, [0x53, 0x54]),
   (0xFB06, [0x53, 0x54]), (0xFB13, [0x544, 0x546]), (0xFB14, [0x544, 0x535]),
   (0xFB15, [0x544, 0x53B]), (0xFB16, [0x54E, 0x546]), (0xFB17, [0x544, 0x53D])]

/-- Letters with one small form. -/
def smallRuns : List CaseRun := CaseRun.ofGaps 0
  [(192, 22, 1, 32), (2, 6, 1, 32), (34, 23, 2, 1), (4, 2, 2, 1), (3, 7, 2, 1), (3, 22, 2, 1),
   (2, 0, 1, -121), (1, 2, 2, 1), (4, 0, 1, 210), (1, 1, 2, 1), (2, 0, 1, 206), (1, 0, 1, 1),
   (2, 1, 1, 205), (1, 0, 1, 1), (3, 0, 1, 79), (1, 0, 1, 202), (1, 0, 1, 203), (1, 0, 1, 1),
   (2, 0, 1, 205), (1, 0, 1, 207), (2, 0, 1, 211), (1, 0, 1, 209), (1, 0, 1, 1), (4, 0, 1, 211),
   (1, 0, 1, 213), (2, 0, 1, 214), (1, 2, 2, 1), (2, 0, 1, 218), (1, 0, 1, 1), (2, 0, 1, 218),
   (3, 0, 1, 1), (2, 0, 1, 218), (1, 0, 1, 1), (2, 1, 1, 217), (1, 1, 2, 1), (2, 0, 1, 219),
   (1, 0, 1, 1), (4, 0, 1, 1), (8, 0, 1, 2), (1, 0, 1, 1), (2, 0, 1, 2), (1, 0, 1, 1), (2, 0, 1, 2),
   (1, 8, 2, 1), (3, 8, 2, 1), (3, 0, 1, 2), (1, 1, 2, 1), (2, 0, 1, -97), (1, 0, 1, -56),
   (1, 19, 2, 1), (2, 0, 1, -130), (2, 8, 2, 1), (8, 0, 1, 10795), (1, 0, 1, 1), (2, 0, 1, -163),
   (1, 0, 1, 10792), (3, 0, 1, 1), (2, 0, 1, -195), (1, 0, 1, 69), (1, 0, 1, 71), (1, 4, 2, 1),
   (290, 1, 2, 1), (4, 0, 1, 1), (9, 0, 1, 116), (7, 0, 1, 38), (2, 2, 1, 37), (2, 0, 1, 64),
   (2, 1, 1, 63), (2, 16, 1, 32), (2, 8, 1, 32), (36, 0, 1, 8), (9, 11, 2, 1), (6, 0, 1, -60),
   (3, 0, 1, 1), (2, 0, 1, -7), (1, 0, 1, 1), (3, 2, 1, -130), (1, 15, 1, 80), (1, 31, 1, 32),
   (49, 16, 2, 1), (10, 26, 2, 1), (2, 0, 1, 15), (1, 6, 2, 1), (3, 47, 2, 1), (3, 37, 1, 48),
   (2890, 37, 1, 7264), (2, 0, 1, 7264), (6, 0, 1, 7264), (723, 79, 1, 38864), (1, 5, 1, 8),
   (2203, 42, 1, -3008), (3, 2, 1, -3008), (321, 74, 2, 1), (10, 0, 1, -7615), (2, 47, 2, 1),
   (10, 7, 1, -8), (9, 5, 1, -8), (11, 7, 1, -8), (9, 7, 1, -8), (9, 5, 1, -8), (12, 3, 2, -8),
   (9, 7, 1, -8), (25, 7, 1, -8), (9, 7, 1, -8), (9, 7, 1, -8), (9, 1, 1, -8), (1, 1, 1, -74),
   (1, 0, 1, -9), (12, 3, 1, -86), (1, 0, 1, -9), (12, 1, 1, -8), (1, 1, 1, -100), (13, 1, 1, -8),
   (1, 1, 1, -112), (1, 0, 1, -7), (12, 1, 1, -128), (1, 1, 1, -126), (1, 0, 1, -9),
   (298, 0, 1, -7517), (4, 0, 1, -8383), (1, 0, 1, -8262), (7, 0, 1, 28), (46, 15, 1, 16),
   (20, 0, 1, 1), (819, 25, 1, 26), (1841, 47, 1, 48), (49, 0, 1, 1), (2, 0, 1, -10743),
   (1, 0, 1, -3814), (1, 0, 1, -10727), (3, 2, 2, 1), (2, 0, 1, -10780), (1, 0, 1, -10749),
   (1, 0, 1, -10783), (1, 0, 1, -10782), (2, 0, 1, 1), (3, 0, 1, 1), (9, 1, 1, -10815),
   (1, 49, 2, 1), (9, 1, 2, 1), (5, 0, 1, 1), (31054, 22, 2, 1), (20, 13, 2, 1), (136, 6, 2, 1),
   (4, 30, 2, 1), (11, 1, 2, 1), (2, 0, 1, -35332), (1, 4, 2, 1), (5, 0, 1, 1), (2, 0, 1, -42280),
   (3, 1, 2, 1), (4, 9, 2, 1), (2, 0, 1, -42308), (1, 0, 1, -42319), (1, 0, 1, -42315),
   (1, 0, 1, -42305), (1, 0, 1, -42308), (2, 0, 1, -42258), (1, 0, 1, -42282), (1, 0, 1, -42261),
   (1, 0, 1, 928), (1, 7, 2, 1), (2, 0, 1, -48), (1, 0, 1, -42307), (1, 0, 1, -35384), (1, 1, 2, 1),
   (7, 0, 1, 1), (6, 1, 2, 1), (29, 0, 1, 1), (22316, 25, 1, 32), (1222, 39, 1, 40),
   (137, 35, 1, 40), (157, 10, 1, 39), (2, 14, 1, 39), (2, 6, 1, 39), (2, 1, 1, 39),
   (1771, 50, 1, 64), (3054, 31, 1, 32), (21889, 31, 1, 32), (31393, 33, 1, 34)]

/-- Letters whose small form is several characters. -/
def smallExpansions : List (Nat × List Nat) :=
  [(0x130, [0x69, 0x307])]

end BasicScript.Text
