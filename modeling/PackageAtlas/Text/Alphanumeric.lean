import PackageAtlas.Text.Letter
import PackageAtlas.Text.Number

/-!
Alphanumeric characters: the property Alphabetic together with the numbers, as of Unicode 17. These
are the letters and numbers that names are made of, the marks that spell vowels, some symbols, and
the letters and numbers that came with Unicode 17.
-/

set_option autoImplicit false
set_option relaxedAutoImplicit false

namespace PackageAtlas.Text

/-- Rows 837 to 6750 of `otherAlphanumericTable`. -/
def otherAlphanumericTableA : List CodeRange :=
  [⟨837, 837, 1⟩, ⟨867, 879, 1⟩, ⟨1456, 1469, 1⟩, ⟨1471, 1471, 1⟩, ⟨1473, 1474, 1⟩, ⟨1476, 1477, 1⟩,
   ⟨1479, 1479, 1⟩, ⟨1552, 1562, 1⟩, ⟨1611, 1623, 1⟩, ⟨1625, 1631, 1⟩, ⟨1648, 1648, 1⟩,
   ⟨1750, 1756, 1⟩, ⟨1761, 1764, 1⟩, ⟨1767, 1768, 1⟩, ⟨1773, 1773, 1⟩, ⟨1809, 1809, 1⟩,
   ⟨1840, 1855, 1⟩, ⟨1958, 1968, 1⟩, ⟨2070, 2071, 1⟩, ⟨2075, 2083, 1⟩, ⟨2085, 2087, 1⟩,
   ⟨2089, 2092, 1⟩, ⟨2191, 2191, 1⟩, ⟨2199, 2199, 1⟩, ⟨2260, 2271, 1⟩, ⟨2275, 2281, 1⟩,
   ⟨2288, 2307, 1⟩, ⟨2362, 2363, 1⟩, ⟨2366, 2380, 1⟩, ⟨2382, 2383, 1⟩, ⟨2389, 2391, 1⟩,
   ⟨2402, 2403, 1⟩, ⟨2433, 2435, 1⟩, ⟨2494, 2500, 1⟩, ⟨2503, 2504, 1⟩, ⟨2507, 2508, 1⟩,
   ⟨2519, 2519, 1⟩, ⟨2530, 2531, 1⟩, ⟨2561, 2563, 1⟩, ⟨2622, 2626, 1⟩, ⟨2631, 2632, 1⟩,
   ⟨2635, 2636, 1⟩, ⟨2641, 2641, 1⟩, ⟨2672, 2673, 1⟩, ⟨2677, 2677, 1⟩, ⟨2689, 2691, 1⟩,
   ⟨2750, 2757, 1⟩, ⟨2759, 2761, 1⟩, ⟨2763, 2764, 1⟩, ⟨2786, 2787, 1⟩, ⟨2810, 2812, 1⟩,
   ⟨2817, 2819, 1⟩, ⟨2878, 2884, 1⟩, ⟨2887, 2888, 1⟩, ⟨2891, 2892, 1⟩, ⟨2902, 2903, 1⟩,
   ⟨2914, 2915, 1⟩, ⟨2946, 2946, 1⟩, ⟨3006, 3010, 1⟩, ⟨3014, 3016, 1⟩, ⟨3018, 3020, 1⟩,
   ⟨3031, 3031, 1⟩, ⟨3072, 3076, 1⟩, ⟨3134, 3140, 1⟩, ⟨3142, 3144, 1⟩, ⟨3146, 3148, 1⟩,
   ⟨3157, 3158, 1⟩, ⟨3164, 3164, 1⟩, ⟨3170, 3171, 1⟩, ⟨3201, 3203, 1⟩, ⟨3262, 3268, 1⟩,
   ⟨3270, 3272, 1⟩, ⟨3274, 3276, 1⟩, ⟨3285, 3286, 1⟩, ⟨3292, 3292, 1⟩, ⟨3298, 3299, 1⟩,
   ⟨3315, 3315, 1⟩, ⟨3328, 3331, 1⟩, ⟨3390, 3396, 1⟩, ⟨3398, 3400, 1⟩, ⟨3402, 3404, 1⟩,
   ⟨3415, 3415, 1⟩, ⟨3426, 3427, 1⟩, ⟨3457, 3459, 1⟩, ⟨3535, 3540, 1⟩, ⟨3542, 3542, 1⟩,
   ⟨3544, 3551, 1⟩, ⟨3570, 3571, 1⟩, ⟨3633, 3633, 1⟩, ⟨3636, 3642, 1⟩, ⟨3661, 3661, 1⟩,
   ⟨3761, 3761, 1⟩, ⟨3764, 3769, 1⟩, ⟨3771, 3772, 1⟩, ⟨3789, 3789, 1⟩, ⟨3953, 3971, 1⟩,
   ⟨3981, 3991, 1⟩, ⟨3993, 4028, 1⟩, ⟨4139, 4150, 1⟩, ⟨4152, 4152, 1⟩, ⟨4155, 4158, 1⟩,
   ⟨4182, 4185, 1⟩, ⟨4190, 4192, 1⟩, ⟨4194, 4196, 1⟩, ⟨4199, 4205, 1⟩, ⟨4209, 4212, 1⟩,
   ⟨4226, 4237, 1⟩, ⟨4239, 4239, 1⟩, ⟨4250, 4253, 1⟩, ⟨5906, 5907, 1⟩, ⟨5938, 5939, 1⟩,
   ⟨5970, 5971, 1⟩, ⟨6002, 6003, 1⟩, ⟨6070, 6088, 1⟩, ⟨6277, 6278, 1⟩, ⟨6313, 6313, 1⟩,
   ⟨6432, 6443, 1⟩, ⟨6448, 6456, 1⟩, ⟨6679, 6683, 1⟩, ⟨6741, 6750, 1⟩]

/-- Rows 6753 to 73179 of `otherAlphanumericTable`. -/
def otherAlphanumericTableB : List CodeRange :=
  [⟨6753, 6772, 1⟩, ⟨6847, 6848, 1⟩, ⟨6860, 6862, 1⟩, ⟨6912, 6916, 1⟩, ⟨6965, 6979, 1⟩,
   ⟨7040, 7042, 1⟩, ⟨7073, 7081, 1⟩, ⟨7084, 7085, 1⟩, ⟨7143, 7153, 1⟩, ⟨7204, 7222, 1⟩,
   ⟨7635, 7668, 1⟩, ⟨9398, 9449, 1⟩, ⟨11744, 11775, 1⟩, ⟨42612, 42619, 1⟩, ⟨42654, 42655, 1⟩,
   ⟨42958, 42959, 1⟩, ⟨42962, 42962, 1⟩, ⟨42964, 42964, 1⟩, ⟨42993, 42993, 1⟩, ⟨43010, 43010, 1⟩,
   ⟨43019, 43019, 1⟩, ⟨43043, 43047, 1⟩, ⟨43136, 43137, 1⟩, ⟨43188, 43203, 1⟩, ⟨43205, 43205, 1⟩,
   ⟨43263, 43263, 1⟩, ⟨43302, 43306, 1⟩, ⟨43335, 43346, 1⟩, ⟨43392, 43395, 1⟩, ⟨43444, 43455, 1⟩,
   ⟨43493, 43493, 1⟩, ⟨43561, 43574, 1⟩, ⟨43587, 43587, 1⟩, ⟨43596, 43597, 1⟩, ⟨43643, 43645, 1⟩,
   ⟨43696, 43696, 1⟩, ⟨43698, 43700, 1⟩, ⟨43703, 43704, 1⟩, ⟨43710, 43710, 1⟩, ⟨43755, 43759, 1⟩,
   ⟨43765, 43765, 1⟩, ⟨44003, 44010, 1⟩, ⟨64286, 64286, 1⟩, ⟨66422, 66426, 1⟩, ⟨67904, 67929, 1⟩,
   ⟨68097, 68099, 1⟩, ⟨68101, 68102, 1⟩, ⟨68108, 68111, 1⟩, ⟨68900, 68903, 1⟩, ⟨68969, 68969, 1⟩,
   ⟨69291, 69292, 1⟩, ⟨69317, 69319, 1⟩, ⟨69370, 69372, 1⟩, ⟨69632, 69634, 1⟩, ⟨69688, 69701, 1⟩,
   ⟨69747, 69748, 1⟩, ⟨69760, 69762, 1⟩, ⟨69808, 69816, 1⟩, ⟨69826, 69826, 1⟩, ⟨69888, 69890, 1⟩,
   ⟨69927, 69938, 1⟩, ⟨69957, 69958, 1⟩, ⟨70016, 70018, 1⟩, ⟨70067, 70079, 1⟩, ⟨70094, 70095, 1⟩,
   ⟨70188, 70196, 1⟩, ⟨70199, 70199, 1⟩, ⟨70206, 70206, 1⟩, ⟨70209, 70209, 1⟩, ⟨70367, 70376, 1⟩,
   ⟨70400, 70403, 1⟩, ⟨70462, 70468, 1⟩, ⟨70471, 70472, 1⟩, ⟨70475, 70476, 1⟩, ⟨70487, 70487, 1⟩,
   ⟨70498, 70499, 1⟩, ⟨70584, 70592, 1⟩, ⟨70594, 70594, 1⟩, ⟨70597, 70597, 1⟩, ⟨70599, 70602, 1⟩,
   ⟨70604, 70605, 1⟩, ⟨70709, 70721, 1⟩, ⟨70723, 70725, 1⟩, ⟨70832, 70849, 1⟩, ⟨71087, 71093, 1⟩,
   ⟨71096, 71102, 1⟩, ⟨71132, 71133, 1⟩, ⟨71216, 71230, 1⟩, ⟨71232, 71232, 1⟩, ⟨71339, 71349, 1⟩,
   ⟨71453, 71466, 1⟩, ⟨71724, 71736, 1⟩, ⟨71984, 71989, 1⟩, ⟨71991, 71992, 1⟩, ⟨71995, 71996, 1⟩,
   ⟨72000, 72000, 1⟩, ⟨72002, 72002, 1⟩, ⟨72145, 72151, 1⟩, ⟨72154, 72159, 1⟩, ⟨72164, 72164, 1⟩,
   ⟨72193, 72202, 1⟩, ⟨72245, 72249, 1⟩, ⟨72251, 72254, 1⟩, ⟨72273, 72283, 1⟩, ⟨72330, 72343, 1⟩,
   ⟨72544, 72551, 1⟩, ⟨72751, 72758, 1⟩, ⟨72760, 72766, 1⟩, ⟨72850, 72871, 1⟩, ⟨72873, 72886, 1⟩,
   ⟨73009, 73014, 1⟩, ⟨73018, 73018, 1⟩, ⟨73020, 73021, 1⟩, ⟨73023, 73025, 1⟩, ⟨73027, 73027, 1⟩,
   ⟨73031, 73031, 1⟩, ⟨73098, 73102, 1⟩, ⟨73104, 73105, 1⟩, ⟨73107, 73110, 1⟩, ⟨73136, 73179, 1⟩]

/-- Rows 73184 to 210041 of `otherAlphanumericTable`. -/
def otherAlphanumericTableC : List CodeRange :=
  [⟨73184, 73193, 1⟩, ⟨73459, 73462, 1⟩, ⟨73472, 73473, 1⟩, ⟨73475, 73475, 1⟩, ⟨73524, 73530, 1⟩,
   ⟨73534, 73536, 1⟩, ⟨90398, 90414, 1⟩, ⟨93856, 93880, 1⟩, ⟨93883, 93907, 1⟩, ⟨94031, 94031, 1⟩,
   ⟨94033, 94087, 1⟩, ⟨94095, 94098, 1⟩, ⟨94192, 94198, 1⟩, ⟨100344, 100351, 1⟩,
   ⟨101641, 101662, 1⟩, ⟨101760, 101874, 1⟩, ⟨113822, 113822, 1⟩, ⟨122880, 122886, 1⟩,
   ⟨122888, 122904, 1⟩, ⟨122907, 122913, 1⟩, ⟨122915, 122916, 1⟩, ⟨122918, 122922, 1⟩,
   ⟨123023, 123023, 1⟩, ⟨124608, 124638, 1⟩, ⟨124640, 124661, 1⟩, ⟨124670, 124671, 1⟩,
   ⟨125255, 125255, 1⟩, ⟨127280, 127305, 1⟩, ⟨127312, 127337, 1⟩, ⟨127344, 127369, 1⟩,
   ⟨177978, 177983, 1⟩, ⟨183970, 183981, 1⟩, ⟨205744, 210041, 1⟩]

/-- The 6167 alphanumeric characters that no name is made of. -/
def otherAlphanumericTable : List CodeRange :=
  otherAlphanumericTableA ++ otherAlphanumericTableB ++ otherAlphanumericTableC

/-- An alphabetic character or a number. -/
def isAlphanumeric (c : Char) : Bool :=
  isLetter c || isNumber c || (128 ≤ c.toNat && inTable otherAlphanumericTable c)

end PackageAtlas.Text
