/-! # General categories

Every assigned character has one general category. A row of a category is every `step`-th code point from
`first` to `last`. Most categories are given by single code points and by runs of them.
-/

namespace ModuleAudit
set_option autoImplicit false

structure CodeRow where
  first : Nat
  last : Nat
  step : Nat
  deriving Repr, DecidableEq

def CodeRow.ranges (row : CodeRow) : List (Nat × Nat) :=
  if row.step = 1 then [(row.first, row.last)]
  else
    (List.range ((row.last - row.first) / row.step + 1)).map fun k =>
      (row.first + k * row.step, row.first + k * row.step)

def CodeRow.points (codes : List Nat) : List CodeRow := codes.map fun code => ⟨code, code, 1⟩

/-- The rows of one step, given by their first and last code points. -/
def CodeRow.each (step : Nat) (ends : List (Nat × Nat)) : List CodeRow :=
  ends.map fun pair => ⟨pair.1, pair.2, step⟩

def rangesOfRows (rows : List CodeRow) : List (Nat × Nat) := rows.flatMap CodeRow.ranges

def uppercaseLetterRows : List CodeRow :=
  CodeRow.points [
    379, 381, 388, 418, 420, 425, 428, 437, 444, 452, 455, 458, 497, 500, 577, 880, 882, 886, 895, 902, 908,
    975, 1012, 1015, 4295, 4301, 7305, 8450, 8455, 8469, 8517, 8579, 11360, 11378, 11381, 11499, 11501, 11506,
    42873, 42875, 42891, 42893, 42896, 42898, 42953, 42960, 42997, 119964, 119970, 120134, 120778]
  ++ CodeRow.each 1 [
    (65, 90), (192, 214), (216, 222), (376, 377), (385, 386), (390, 391), (393, 395), (398, 401), (403, 404),
    (406, 408), (412, 413), (415, 416), (422, 423), (430, 431), (433, 435), (439, 440), (502, 504),
    (570, 571), (573, 574), (579, 582), (904, 906), (910, 911), (913, 929), (931, 939), (978, 980),
    (1017, 1018), (1021, 1071), (1216, 1217), (1329, 1366), (4256, 4293), (5024, 5109), (7312, 7354),
    (7357, 7359), (7944, 7951), (7960, 7965), (7976, 7983), (7992, 7999), (8008, 8013), (8040, 8047),
    (8120, 8123), (8136, 8139), (8152, 8155), (8168, 8172), (8184, 8187), (8459, 8461), (8464, 8466),
    (8473, 8477), (8490, 8493), (8496, 8499), (8510, 8511), (11264, 11311), (11362, 11364), (11373, 11376),
    (11390, 11392), (42877, 42878), (42922, 42926), (42928, 42932), (42948, 42951), (42955, 42956),
    (65313, 65338), (66560, 66599), (66736, 66771), (66928, 66938), (66940, 66954), (66956, 66962),
    (66964, 66965), (68736, 68786), (68944, 68965), (71840, 71871), (93760, 93791), (119808, 119833),
    (119860, 119885), (119912, 119937), (119966, 119967), (119973, 119974), (119977, 119980),
    (119982, 119989), (120016, 120041), (120068, 120069), (120071, 120074), (120077, 120084),
    (120086, 120092), (120120, 120121), (120123, 120126), (120128, 120132), (120138, 120144),
    (120172, 120197), (120224, 120249), (120276, 120301), (120328, 120353), (120380, 120405),
    (120432, 120457), (120488, 120512), (120546, 120570), (120604, 120628), (120662, 120686),
    (120720, 120744), (125184, 125217)]
  ++ CodeRow.each 2 [
    (256, 310), (313, 327), (330, 374), (461, 475), (478, 494), (506, 562), (584, 590), (984, 1006),
    (1120, 1152), (1162, 1214), (1219, 1229), (1232, 1326), (7680, 7828), (7838, 7934), (8025, 8031),
    (8484, 8488), (11367, 11371), (11394, 11490), (42560, 42604), (42624, 42650), (42786, 42798),
    (42802, 42862), (42880, 42886), (42902, 42920), (42934, 42946), (42966, 42972)]

def lowercaseLetterRows : List CodeRow :=
  CodeRow.points [
    181, 378, 380, 387, 389, 392, 402, 405, 414, 424, 429, 432, 436, 438, 454, 457, 499, 501, 572, 578, 881,
    883, 887, 912, 1013, 1016, 7306, 8126, 8458, 8467, 8495, 8500, 8505, 8526, 8580, 11361, 11377, 11500,
    11502, 11507, 11559, 11565, 42874, 42876, 42892, 42894, 42897, 42927, 42952, 42954, 42957, 42998, 43002,
    119995, 120779]
  ++ CodeRow.each 1 [
    (97, 122), (223, 246), (248, 255), (311, 312), (328, 329), (382, 384), (396, 397), (409, 411), (426, 427),
    (441, 442), (445, 447), (476, 477), (495, 496), (563, 569), (575, 576), (591, 659), (662, 687),
    (891, 893), (940, 974), (976, 977), (981, 983), (1007, 1011), (1019, 1020), (1072, 1119), (1230, 1231),
    (1376, 1416), (4304, 4346), (4349, 4351), (5112, 5117), (7296, 7304), (7424, 7467), (7531, 7543),
    (7545, 7578), (7829, 7837), (7935, 7943), (7952, 7957), (7968, 7975), (7984, 7991), (8000, 8005),
    (8016, 8023), (8032, 8039), (8048, 8061), (8064, 8071), (8080, 8087), (8096, 8103), (8112, 8116),
    (8118, 8119), (8130, 8132), (8134, 8135), (8144, 8147), (8150, 8151), (8160, 8167), (8178, 8180),
    (8182, 8183), (8462, 8463), (8508, 8509), (8518, 8521), (11312, 11359), (11365, 11366), (11379, 11380),
    (11382, 11387), (11491, 11492), (11520, 11557), (42799, 42801), (42865, 42872), (42899, 42901),
    (43824, 43866), (43872, 43880), (43888, 43967), (64256, 64262), (64275, 64279), (65345, 65370),
    (66600, 66639), (66776, 66811), (66967, 66977), (66979, 66993), (66995, 67001), (67003, 67004),
    (68800, 68850), (68976, 68997), (71872, 71903), (93792, 93823), (119834, 119859), (119886, 119892),
    (119894, 119911), (119938, 119963), (119990, 119993), (119997, 120003), (120005, 120015),
    (120042, 120067), (120094, 120119), (120146, 120171), (120198, 120223), (120250, 120275),
    (120302, 120327), (120354, 120379), (120406, 120431), (120458, 120485), (120514, 120538),
    (120540, 120545), (120572, 120596), (120598, 120603), (120630, 120654), (120656, 120661),
    (120688, 120712), (120714, 120719), (120746, 120770), (120772, 120777), (122624, 122633),
    (122635, 122654), (122661, 122666), (125218, 125251)]
  ++ CodeRow.each 2 [
    (257, 309), (314, 326), (331, 375), (417, 421), (460, 474), (479, 493), (505, 561), (583, 589),
    (985, 1005), (1121, 1153), (1163, 1215), (1218, 1228), (1233, 1327), (7681, 7827), (7839, 7933),
    (11368, 11372), (11393, 11489), (42561, 42605), (42625, 42651), (42787, 42797), (42803, 42863),
    (42879, 42887), (42903, 42921), (42933, 42947), (42961, 42971)]

def titlecaseLetterRows : List CodeRow :=
  CodeRow.points [453, 456, 459, 498, 8124, 8140, 8188]
  ++ CodeRow.each 1 [(8072, 8079), (8088, 8095), (8104, 8111)]

def modifierLetterRows : List CodeRow :=
  CodeRow.points [
    748, 750, 884, 890, 1369, 1600, 2042, 2074, 2084, 2088, 2249, 2417, 3654, 3782, 4348, 6103, 6211, 6823,
    7544, 8305, 8319, 11631, 11823, 12293, 12347, 40981, 42508, 42623, 42864, 42888, 43471, 43494, 43632,
    43741, 43881, 65392, 68942, 68975, 94179, 124139, 125259]
  ++ CodeRow.each 1 [
    (688, 705), (710, 721), (736, 740), (1765, 1766), (2036, 2037), (7288, 7293), (7468, 7530), (7579, 7615),
    (8336, 8348), (11388, 11389), (12337, 12341), (12445, 12446), (12540, 12542), (42232, 42237),
    (42652, 42653), (42775, 42783), (42994, 42996), (43000, 43001), (43763, 43764), (43868, 43871),
    (65438, 65439), (67456, 67461), (67463, 67504), (67506, 67514), (92992, 92995), (93504, 93506),
    (93547, 93548), (94099, 94111), (94176, 94177), (110576, 110579), (110581, 110587), (110589, 110590),
    (122928, 122989), (123191, 123197)]

/-- The rows of letters without case. -/
def otherLetterRows : List CodeRow :=
  CodeRow.points [
    170, 186, 443, 1749, 1791, 1808, 1969, 2365, 2384, 2482, 2493, 2510, 2556, 2654, 2749, 2768, 2809, 2877,
    2929, 2947, 2972, 3024, 3133, 3165, 3200, 3261, 3389, 3406, 3517, 3716, 3749, 3773, 3840, 4159, 4193,
    4238, 4696, 4800, 6108, 6314, 7418, 12294, 12348, 12447, 12543, 42606, 42895, 42999, 43259, 43642, 43697,
    43712, 43714, 43762, 64285, 64318, 67592, 67644, 68096, 68943, 69415, 69749, 69956, 69959, 70006, 70106,
    70108, 70280, 70461, 70480, 70539, 70542, 70583, 70609, 70611, 70855, 71236, 71352, 71945, 71999, 72001,
    72161, 72163, 72192, 72250, 72272, 72349, 72768, 73030, 73112, 73474, 73648, 94032, 110898, 110933,
    122634, 123214, 124400, 126500, 126503, 126521, 126523, 126530, 126548, 126564, 126590]
  ++ CodeRow.each 1 [
    (448, 451), (660, 661), (1488, 1514), (1519, 1522), (1568, 1599), (1601, 1610), (1646, 1647),
    (1649, 1747), (1774, 1775), (1786, 1788), (1810, 1839), (1869, 1957), (1994, 2026), (2048, 2069),
    (2112, 2136), (2144, 2154), (2160, 2183), (2185, 2190), (2208, 2248), (2308, 2361), (2392, 2401),
    (2418, 2432), (2437, 2444), (2447, 2448), (2451, 2472), (2474, 2480), (2486, 2489), (2524, 2525),
    (2527, 2529), (2544, 2545), (2565, 2570), (2575, 2576), (2579, 2600), (2602, 2608), (2610, 2611),
    (2613, 2614), (2616, 2617), (2649, 2652), (2674, 2676), (2693, 2701), (2703, 2705), (2707, 2728),
    (2730, 2736), (2738, 2739), (2741, 2745), (2784, 2785), (2821, 2828), (2831, 2832), (2835, 2856),
    (2858, 2864), (2866, 2867), (2869, 2873), (2908, 2909), (2911, 2913), (2949, 2954), (2958, 2960),
    (2962, 2965), (2969, 2970), (2974, 2975), (2979, 2980), (2984, 2986), (2990, 3001), (3077, 3084),
    (3086, 3088), (3090, 3112), (3114, 3129), (3160, 3162), (3168, 3169), (3205, 3212), (3214, 3216),
    (3218, 3240), (3242, 3251), (3253, 3257), (3293, 3294), (3296, 3297), (3313, 3314), (3332, 3340),
    (3342, 3344), (3346, 3386), (3412, 3414), (3423, 3425), (3450, 3455), (3461, 3478), (3482, 3505),
    (3507, 3515), (3520, 3526), (3585, 3632), (3634, 3635), (3648, 3653), (3713, 3714), (3718, 3722),
    (3724, 3747), (3751, 3760), (3762, 3763), (3776, 3780), (3804, 3807), (3904, 3911), (3913, 3948),
    (3976, 3980), (4096, 4138), (4176, 4181), (4186, 4189), (4197, 4198), (4206, 4208), (4213, 4225),
    (4352, 4680), (4682, 4685), (4688, 4694), (4698, 4701), (4704, 4744), (4746, 4749), (4752, 4784),
    (4786, 4789), (4792, 4798), (4802, 4805), (4808, 4822), (4824, 4880), (4882, 4885), (4888, 4954),
    (4992, 5007), (5121, 5740), (5743, 5759), (5761, 5786), (5792, 5866), (5873, 5880), (5888, 5905),
    (5919, 5937), (5952, 5969), (5984, 5996), (5998, 6000), (6016, 6067), (6176, 6210), (6212, 6264),
    (6272, 6276), (6279, 6312), (6320, 6389), (6400, 6430), (6480, 6509), (6512, 6516), (6528, 6571),
    (6576, 6601), (6656, 6678), (6688, 6740), (6917, 6963), (6981, 6988), (7043, 7072), (7086, 7087),
    (7098, 7141), (7168, 7203), (7245, 7247), (7258, 7287), (7401, 7404), (7406, 7411), (7413, 7414),
    (8501, 8504), (11568, 11623), (11648, 11670), (11680, 11686), (11688, 11694), (11696, 11702),
    (11704, 11710), (11712, 11718), (11720, 11726), (11728, 11734), (11736, 11742), (12353, 12438),
    (12449, 12538), (12549, 12591), (12593, 12686), (12704, 12735), (12784, 12799), (13312, 19903),
    (19968, 40980), (40982, 42124), (42192, 42231), (42240, 42507), (42512, 42527), (42538, 42539),
    (42656, 42725), (43003, 43009), (43011, 43013), (43015, 43018), (43020, 43042), (43072, 43123),
    (43138, 43187), (43250, 43255), (43261, 43262), (43274, 43301), (43312, 43334), (43360, 43388),
    (43396, 43442), (43488, 43492), (43495, 43503), (43514, 43518), (43520, 43560), (43584, 43586),
    (43588, 43595), (43616, 43631), (43633, 43638), (43646, 43695), (43701, 43702), (43705, 43709),
    (43739, 43740), (43744, 43754), (43777, 43782), (43785, 43790), (43793, 43798), (43808, 43814),
    (43816, 43822), (43968, 44002), (44032, 55203), (55216, 55238), (55243, 55291), (63744, 64109),
    (64112, 64217), (64287, 64296), (64298, 64310), (64312, 64316), (64320, 64321), (64323, 64324),
    (64326, 64433), (64467, 64829), (64848, 64911), (64914, 64967), (65008, 65019), (65136, 65140),
    (65142, 65276), (65382, 65391), (65393, 65437), (65440, 65470), (65474, 65479), (65482, 65487),
    (65490, 65495), (65498, 65500), (65536, 65547), (65549, 65574), (65576, 65594), (65596, 65597),
    (65599, 65613), (65616, 65629), (65664, 65786), (66176, 66204), (66208, 66256), (66304, 66335),
    (66349, 66368), (66370, 66377), (66384, 66421), (66432, 66461), (66464, 66499), (66504, 66511),
    (66640, 66717), (66816, 66855), (66864, 66915), (67008, 67059), (67072, 67382), (67392, 67413),
    (67424, 67431), (67584, 67589), (67594, 67637), (67639, 67640), (67647, 67669), (67680, 67702),
    (67712, 67742), (67808, 67826), (67828, 67829), (67840, 67861), (67872, 67897), (67968, 68023),
    (68030, 68031), (68112, 68115), (68117, 68119), (68121, 68149), (68192, 68220), (68224, 68252),
    (68288, 68295), (68297, 68324), (68352, 68405), (68416, 68437), (68448, 68466), (68480, 68497),
    (68608, 68680), (68864, 68899), (68938, 68941), (69248, 69289), (69296, 69297), (69314, 69316),
    (69376, 69404), (69424, 69445), (69488, 69505), (69552, 69572), (69600, 69622), (69635, 69687),
    (69745, 69746), (69763, 69807), (69840, 69864), (69891, 69926), (69968, 70002), (70019, 70066),
    (70081, 70084), (70144, 70161), (70163, 70187), (70207, 70208), (70272, 70278), (70282, 70285),
    (70287, 70301), (70303, 70312), (70320, 70366), (70405, 70412), (70415, 70416), (70419, 70440),
    (70442, 70448), (70450, 70451), (70453, 70457), (70493, 70497), (70528, 70537), (70544, 70581),
    (70656, 70708), (70727, 70730), (70751, 70753), (70784, 70831), (70852, 70853), (71040, 71086),
    (71128, 71131), (71168, 71215), (71296, 71338), (71424, 71450), (71488, 71494), (71680, 71723),
    (71935, 71942), (71948, 71955), (71957, 71958), (71960, 71983), (72096, 72103), (72106, 72144),
    (72203, 72242), (72284, 72329), (72368, 72440), (72640, 72672), (72704, 72712), (72714, 72750),
    (72818, 72847), (72960, 72966), (72968, 72969), (72971, 73008), (73056, 73061), (73063, 73064),
    (73066, 73097), (73440, 73458), (73476, 73488), (73490, 73523), (73728, 74649), (74880, 75075),
    (77712, 77808), (77824, 78895), (78913, 78918), (78944, 82938), (82944, 83526), (90368, 90397),
    (92160, 92728), (92736, 92766), (92784, 92862), (92880, 92909), (92928, 92975), (93027, 93047),
    (93053, 93071), (93507, 93546), (93952, 94026), (94208, 100343), (100352, 101589), (101631, 101640),
    (110592, 110882), (110928, 110930), (110948, 110951), (110960, 111355), (113664, 113770),
    (113776, 113788), (113792, 113800), (113808, 113817), (123136, 123180), (123536, 123565),
    (123584, 123627), (124112, 124138), (124368, 124397), (124896, 124902), (124904, 124907),
    (124909, 124910), (124912, 124926), (124928, 125124), (126464, 126467), (126469, 126495),
    (126497, 126498), (126505, 126514), (126516, 126519), (126541, 126543), (126545, 126546),
    (126561, 126562), (126567, 126570), (126572, 126578), (126580, 126583), (126585, 126588),
    (126592, 126601), (126603, 126619), (126625, 126627), (126629, 126633), (126635, 126651),
    (131072, 173791), (173824, 177977), (177984, 178205), (178208, 183969), (183984, 191456),
    (191472, 192093), (194560, 195101), (196608, 201546), (201552, 205743)]
  ++ CodeRow.each 2 [(126535, 126539), (126551, 126559)]

/-- The rows of marks that take no space. -/
def nonspacingMarkRows : List CodeRow :=
  CodeRow.points [
    1471, 1479, 1648, 1809, 2045, 2362, 2364, 2381, 2433, 2492, 2509, 2558, 2620, 2641, 2677, 2748, 2765,
    2817, 2876, 2879, 2893, 2946, 3008, 3021, 3072, 3076, 3132, 3201, 3260, 3263, 3270, 3405, 3457, 3530,
    3542, 3633, 3761, 4038, 4226, 4237, 4253, 6086, 6109, 6159, 6313, 6450, 6683, 6742, 6752, 6754, 6783,
    6964, 6972, 6978, 7142, 7149, 7405, 7412, 8417, 11647, 42607, 43010, 43014, 43019, 43052, 43263, 43443,
    43493, 43587, 43596, 43644, 43696, 43713, 43766, 44005, 44008, 44013, 64286, 66045, 66272, 68159, 69633,
    69744, 69826, 70003, 70095, 70196, 70206, 70209, 70367, 70464, 70726, 70750, 70842, 71229, 71339, 71341,
    71351, 71453, 71455, 71998, 72003, 72160, 72263, 72767, 73018, 73031, 73109, 73111, 73536, 73538, 73562,
    78912, 94031, 94180, 121461, 121476, 123023, 123566]
  ++ CodeRow.each 1 [
    (768, 879), (1155, 1159), (1425, 1469), (1473, 1474), (1476, 1477), (1552, 1562), (1611, 1631),
    (1750, 1756), (1759, 1764), (1767, 1768), (1770, 1773), (1840, 1866), (1958, 1968), (2027, 2035),
    (2070, 2073), (2075, 2083), (2085, 2087), (2089, 2093), (2137, 2139), (2199, 2207), (2250, 2273),
    (2275, 2306), (2369, 2376), (2385, 2391), (2402, 2403), (2497, 2500), (2530, 2531), (2561, 2562),
    (2625, 2626), (2631, 2632), (2635, 2637), (2672, 2673), (2689, 2690), (2753, 2757), (2759, 2760),
    (2786, 2787), (2810, 2815), (2881, 2884), (2901, 2902), (2914, 2915), (3134, 3136), (3142, 3144),
    (3146, 3149), (3157, 3158), (3170, 3171), (3276, 3277), (3298, 3299), (3328, 3329), (3387, 3388),
    (3393, 3396), (3426, 3427), (3538, 3540), (3636, 3642), (3655, 3662), (3764, 3772), (3784, 3790),
    (3864, 3865), (3953, 3966), (3968, 3972), (3974, 3975), (3981, 3991), (3993, 4028), (4141, 4144),
    (4146, 4151), (4153, 4154), (4157, 4158), (4184, 4185), (4190, 4192), (4209, 4212), (4229, 4230),
    (4957, 4959), (5906, 5908), (5938, 5939), (5970, 5971), (6002, 6003), (6068, 6069), (6071, 6077),
    (6089, 6099), (6155, 6157), (6277, 6278), (6432, 6434), (6439, 6440), (6457, 6459), (6679, 6680),
    (6744, 6750), (6757, 6764), (6771, 6780), (6832, 6845), (6847, 6862), (6912, 6915), (6966, 6970),
    (7019, 7027), (7040, 7041), (7074, 7077), (7080, 7081), (7083, 7085), (7144, 7145), (7151, 7153),
    (7212, 7219), (7222, 7223), (7376, 7378), (7380, 7392), (7394, 7400), (7416, 7417), (7616, 7679),
    (8400, 8412), (8421, 8432), (11503, 11505), (11744, 11775), (12330, 12333), (12441, 12442),
    (42612, 42621), (42654, 42655), (42736, 42737), (43045, 43046), (43204, 43205), (43232, 43249),
    (43302, 43309), (43335, 43345), (43392, 43394), (43446, 43449), (43452, 43453), (43561, 43566),
    (43569, 43570), (43573, 43574), (43698, 43700), (43703, 43704), (43710, 43711), (43756, 43757),
    (65024, 65039), (65056, 65071), (66422, 66426), (68097, 68099), (68101, 68102), (68108, 68111),
    (68152, 68154), (68325, 68326), (68900, 68903), (68969, 68973), (69291, 69292), (69372, 69375),
    (69446, 69456), (69506, 69509), (69688, 69702), (69747, 69748), (69759, 69761), (69811, 69814),
    (69817, 69818), (69888, 69890), (69927, 69931), (69933, 69940), (70016, 70017), (70070, 70078),
    (70089, 70092), (70191, 70193), (70198, 70199), (70371, 70378), (70400, 70401), (70459, 70460),
    (70502, 70508), (70512, 70516), (70587, 70592), (70625, 70626), (70712, 70719), (70722, 70724),
    (70835, 70840), (70847, 70848), (70850, 70851), (71090, 71093), (71100, 71101), (71103, 71104),
    (71132, 71133), (71219, 71226), (71231, 71232), (71344, 71349), (71458, 71461), (71463, 71467),
    (71727, 71735), (71737, 71738), (71995, 71996), (72148, 72151), (72154, 72155), (72193, 72202),
    (72243, 72248), (72251, 72254), (72273, 72278), (72281, 72283), (72330, 72342), (72344, 72345),
    (72752, 72758), (72760, 72765), (72850, 72871), (72874, 72880), (72882, 72883), (72885, 72886),
    (73009, 73014), (73020, 73021), (73023, 73029), (73104, 73105), (73459, 73460), (73472, 73473),
    (73526, 73530), (78919, 78933), (90398, 90409), (90413, 90415), (92912, 92916), (92976, 92982),
    (94095, 94098), (113821, 113822), (118528, 118573), (118576, 118598), (119143, 119145), (119163, 119170),
    (119173, 119179), (119210, 119213), (119362, 119364), (121344, 121398), (121403, 121452),
    (121499, 121503), (121505, 121519), (122880, 122886), (122888, 122904), (122907, 122913),
    (122915, 122916), (122918, 122922), (123184, 123190), (123628, 123631), (124140, 124143),
    (124398, 124399), (125136, 125142), (125252, 125258), (917760, 917999)]
  ++ CodeRow.each 2 [(3893, 3897), (70606, 70610)]

/-- The rows of marks that take space. -/
def spacingMarkRows : List CodeRow :=
  CodeRow.points [
    2307, 2363, 2519, 2563, 2691, 2761, 2878, 2880, 2903, 3031, 3262, 3315, 3415, 3967, 4145, 4152, 4239,
    5909, 5940, 6070, 6741, 6743, 6753, 6916, 6965, 6971, 7042, 7073, 7082, 7143, 7150, 7393, 7415, 43047,
    43395, 43597, 43643, 43645, 43755, 43765, 44012, 69632, 69634, 69762, 69932, 70018, 70094, 70197, 70487,
    70594, 70597, 70607, 70725, 70841, 70849, 71102, 71230, 71340, 71350, 71454, 71462, 71736, 71997, 72000,
    72002, 72164, 72249, 72343, 72751, 72766, 72873, 72881, 72884, 73110, 73475, 73537]
  ++ CodeRow.each 1 [
    (2366, 2368), (2377, 2380), (2382, 2383), (2434, 2435), (2494, 2496), (2503, 2504), (2507, 2508),
    (2622, 2624), (2750, 2752), (2763, 2764), (2818, 2819), (2887, 2888), (2891, 2892), (3006, 3007),
    (3009, 3010), (3014, 3016), (3018, 3020), (3073, 3075), (3137, 3140), (3202, 3203), (3264, 3268),
    (3271, 3272), (3274, 3275), (3285, 3286), (3330, 3331), (3390, 3392), (3398, 3400), (3402, 3404),
    (3458, 3459), (3535, 3537), (3544, 3551), (3570, 3571), (3902, 3903), (4139, 4140), (4155, 4156),
    (4182, 4183), (4194, 4196), (4199, 4205), (4227, 4228), (4231, 4236), (4250, 4252), (6078, 6085),
    (6087, 6088), (6435, 6438), (6441, 6443), (6448, 6449), (6451, 6456), (6681, 6682), (6755, 6756),
    (6765, 6770), (6973, 6977), (6979, 6980), (7078, 7079), (7146, 7148), (7154, 7155), (7204, 7211),
    (7220, 7221), (12334, 12335), (43043, 43044), (43136, 43137), (43188, 43203), (43346, 43347),
    (43444, 43445), (43450, 43451), (43454, 43456), (43567, 43568), (43571, 43572), (43758, 43759),
    (44003, 44004), (44006, 44007), (44009, 44010), (69808, 69810), (69815, 69816), (69957, 69958),
    (70067, 70069), (70079, 70080), (70188, 70190), (70194, 70195), (70368, 70370), (70402, 70403),
    (70462, 70463), (70465, 70468), (70471, 70472), (70475, 70477), (70498, 70499), (70584, 70586),
    (70599, 70602), (70604, 70605), (70709, 70711), (70720, 70721), (70832, 70834), (70843, 70846),
    (71087, 71089), (71096, 71099), (71216, 71218), (71227, 71228), (71342, 71343), (71456, 71457),
    (71724, 71726), (71984, 71989), (71991, 71992), (72145, 72147), (72156, 72159), (72279, 72280),
    (73098, 73102), (73107, 73108), (73461, 73462), (73524, 73525), (73534, 73535), (90410, 90412),
    (94033, 94087), (94192, 94193), (119141, 119142), (119149, 119154)]

def enclosingMarkRows : List CodeRow :=
  CodeRow.points [6846]
  ++ CodeRow.each 1 [(1160, 1161), (8413, 8416), (8418, 8420), (42608, 42610)]

def decimalNumberRows : List CodeRow :=
  CodeRow.each 1 [
    (48, 57), (1632, 1641), (1776, 1785), (1984, 1993), (2406, 2415), (2534, 2543), (2662, 2671),
    (2790, 2799), (2918, 2927), (3046, 3055), (3174, 3183), (3302, 3311), (3430, 3439), (3558, 3567),
    (3664, 3673), (3792, 3801), (3872, 3881), (4160, 4169), (4240, 4249), (6112, 6121), (6160, 6169),
    (6470, 6479), (6608, 6617), (6784, 6793), (6800, 6809), (6992, 7001), (7088, 7097), (7232, 7241),
    (7248, 7257), (42528, 42537), (43216, 43225), (43264, 43273), (43472, 43481), (43504, 43513),
    (43600, 43609), (44016, 44025), (65296, 65305), (66720, 66729), (68912, 68921), (68928, 68937),
    (69734, 69743), (69872, 69881), (69942, 69951), (70096, 70105), (70384, 70393), (70736, 70745),
    (70864, 70873), (71248, 71257), (71360, 71369), (71376, 71395), (71472, 71481), (71904, 71913),
    (72016, 72025), (72688, 72697), (72784, 72793), (73040, 73049), (73120, 73129), (73552, 73561),
    (90416, 90425), (92768, 92777), (92864, 92873), (93008, 93017), (93552, 93561), (118000, 118009),
    (120782, 120831), (123200, 123209), (123632, 123641), (124144, 124153), (124401, 124410),
    (125264, 125273), (130032, 130041)]

/-- The rows of letters that are numbers. -/
def letterNumberRows : List CodeRow :=
  CodeRow.points [12295, 66369, 66378]
  ++ CodeRow.each 1 [
    (5870, 5872), (8544, 8578), (8581, 8584), (12321, 12329), (12344, 12346), (42726, 42735), (65856, 65908),
    (66513, 66517), (74752, 74862)]

def otherNumberRows : List CodeRow :=
  CodeRow.points [185, 6618, 8304, 8585, 11517]
  ++ CodeRow.each 1 [
    (178, 179), (188, 190), (2548, 2553), (2930, 2935), (3056, 3058), (3192, 3198), (3416, 3422),
    (3440, 3448), (3882, 3891), (4969, 4988), (6128, 6137), (8308, 8313), (8320, 8329), (8528, 8543),
    (9312, 9371), (9450, 9471), (10102, 10131), (12690, 12693), (12832, 12841), (12872, 12879),
    (12881, 12895), (12928, 12937), (12977, 12991), (43056, 43061), (65799, 65843), (65909, 65912),
    (65930, 65931), (66273, 66299), (66336, 66339), (67672, 67679), (67705, 67711), (67751, 67759),
    (67835, 67839), (67862, 67867), (68028, 68029), (68032, 68047), (68050, 68095), (68160, 68168),
    (68221, 68222), (68253, 68255), (68331, 68335), (68440, 68447), (68472, 68479), (68521, 68527),
    (68858, 68863), (69216, 69246), (69405, 69414), (69457, 69460), (69573, 69579), (69714, 69733),
    (70113, 70132), (71482, 71483), (71914, 71922), (72794, 72812), (73664, 73684), (93019, 93025),
    (93824, 93846), (119488, 119507), (119520, 119539), (119648, 119672), (125127, 125135), (126065, 126123),
    (126125, 126127), (126129, 126132), (126209, 126253), (126255, 126269), (127232, 127244)]

def connectorPunctuationRows : List CodeRow :=
  CodeRow.points [95, 8276, 65343]
  ++ CodeRow.each 1 [(8255, 8256), (65075, 65076), (65101, 65103)]

def dashPunctuationRows : List CodeRow :=
  CodeRow.points [
    45, 1418, 1470, 5120, 6150, 11799, 11802, 11840, 11869, 12316, 12336, 12448, 65112, 65123, 65293, 68974,
    69293]
  ++ CodeRow.each 1 [(8208, 8213), (11834, 11835), (65073, 65074)]

def openPunctuationRows : List CodeRow :=
  CodeRow.points [
    40, 91, 123, 3898, 3900, 5787, 8218, 8222, 8261, 8317, 8333, 8968, 8970, 9001, 10181, 10712, 10714, 10748,
    11842, 12317, 64831, 65047, 65095, 65288, 65339, 65371, 65375, 65378]
  ++ CodeRow.each 2 [
    (10088, 10100), (10214, 10222), (10627, 10647), (11810, 11816), (11861, 11867), (12296, 12304),
    (12308, 12314), (65077, 65091), (65113, 65117)]

def closePunctuationRows : List CodeRow :=
  CodeRow.points [
    41, 93, 125, 3899, 3901, 5788, 8262, 8318, 8334, 8969, 8971, 9002, 10182, 10713, 10715, 10749, 64830,
    65048, 65096, 65289, 65341, 65373, 65376, 65379]
  ++ CodeRow.each 1 [(12318, 12319)]
  ++ CodeRow.each 2 [
    (10089, 10101), (10215, 10223), (10628, 10648), (11811, 11817), (11862, 11868), (12297, 12305),
    (12309, 12315), (65078, 65092), (65114, 65118)]

/-- The rows of opening quotation marks. -/
def initialPunctuationRows : List CodeRow :=
  CodeRow.points [171, 8216, 8223, 8249, 11778, 11780, 11785, 11788, 11804, 11808]
  ++ CodeRow.each 1 [(8219, 8220)]

/-- The rows of closing quotation marks. -/
def finalPunctuationRows : List CodeRow :=
  CodeRow.points [187, 8217, 8221, 8250, 11779, 11781, 11786, 11789, 11805, 11809]

def otherPunctuationRows : List CodeRow :=
  CodeRow.points [
    42, 44, 92, 161, 167, 191, 894, 903, 1417, 1472, 1475, 1478, 1563, 1748, 2142, 2416, 2557, 2678, 2800,
    3191, 3204, 3572, 3663, 3860, 3973, 4347, 5742, 7379, 8275, 11632, 11787, 11803, 11841, 12349, 12539,
    42611, 42622, 43260, 43359, 44011, 65049, 65072, 65128, 65290, 65292, 65340, 65377, 66463, 66512, 66927,
    67671, 67871, 67903, 68223, 70093, 70107, 70313, 70749, 70854, 71353, 71739, 72162, 72673, 73727, 92917,
    92996, 94178, 113823, 124415]
  ++ CodeRow.each 1 [
    (33, 35), (37, 39), (46, 47), (58, 59), (63, 64), (182, 183), (1370, 1375), (1523, 1524), (1545, 1546),
    (1548, 1549), (1565, 1567), (1642, 1645), (1792, 1805), (2039, 2041), (2096, 2110), (2404, 2405),
    (3674, 3675), (3844, 3858), (4048, 4052), (4057, 4058), (4170, 4175), (4960, 4968), (5867, 5869),
    (5941, 5942), (6100, 6102), (6104, 6106), (6144, 6149), (6151, 6154), (6468, 6469), (6686, 6687),
    (6816, 6822), (6824, 6829), (6990, 6991), (7002, 7008), (7037, 7039), (7164, 7167), (7227, 7231),
    (7294, 7295), (7360, 7367), (8214, 8215), (8224, 8231), (8240, 8248), (8251, 8254), (8257, 8259),
    (8263, 8273), (8277, 8286), (11513, 11516), (11518, 11519), (11776, 11777), (11782, 11784),
    (11790, 11798), (11800, 11801), (11806, 11807), (11818, 11822), (11824, 11833), (11836, 11839),
    (11843, 11855), (11858, 11860), (12289, 12291), (42238, 42239), (42509, 42511), (42738, 42743),
    (43124, 43127), (43214, 43215), (43256, 43258), (43310, 43311), (43457, 43469), (43486, 43487),
    (43612, 43615), (43742, 43743), (43760, 43761), (65040, 65046), (65093, 65094), (65097, 65100),
    (65104, 65106), (65108, 65111), (65119, 65121), (65130, 65131), (65281, 65283), (65285, 65287),
    (65294, 65295), (65306, 65307), (65311, 65312), (65380, 65381), (65792, 65794), (68176, 68184),
    (68336, 68342), (68409, 68415), (68505, 68508), (69461, 69465), (69510, 69513), (69703, 69709),
    (69819, 69820), (69822, 69825), (69952, 69955), (70004, 70005), (70085, 70088), (70109, 70111),
    (70200, 70205), (70612, 70613), (70615, 70616), (70731, 70735), (70746, 70747), (71105, 71127),
    (71233, 71235), (71264, 71276), (71484, 71486), (72004, 72006), (72255, 72262), (72346, 72348),
    (72350, 72354), (72448, 72457), (72769, 72773), (72816, 72817), (73463, 73464), (73539, 73551),
    (74864, 74868), (77809, 77810), (92782, 92783), (92983, 92987), (93549, 93551), (93847, 93850),
    (121479, 121483), (125278, 125279)]

def mathSymbolRows : List CodeRow :=
  CodeRow.points [
    43, 124, 126, 172, 177, 215, 247, 1014, 8260, 8274, 8472, 8523, 8608, 8611, 8614, 8622, 8658, 8660, 9084,
    9655, 9665, 9839, 64297, 65122, 65291, 65372, 65374, 65506, 120513, 120539, 120571, 120597, 120629,
    120655, 120687, 120713, 120745, 120771]
  ++ CodeRow.each 1 [
    (60, 62), (1542, 1544), (8314, 8316), (8330, 8332), (8512, 8516), (8592, 8596), (8602, 8603),
    (8654, 8655), (8692, 8959), (8992, 8993), (9115, 9139), (9180, 9185), (9720, 9727), (10176, 10180),
    (10183, 10213), (10224, 10239), (10496, 10626), (10649, 10711), (10716, 10747), (10750, 11007),
    (11056, 11076), (11079, 11084), (65124, 65126), (65308, 65310), (65513, 65516), (69006, 69007),
    (126704, 126705)]

def currencySymbolRows : List CodeRow :=
  CodeRow.points [36, 1423, 1547, 2555, 2801, 3065, 3647, 6107, 43064, 65020, 65129, 65284, 123647, 126128]
  ++ CodeRow.each 1 [
    (162, 165), (2046, 2047), (2546, 2547), (8352, 8384), (65504, 65505), (65509, 65510), (73693, 73696)]

def modifierSymbolRows : List CodeRow :=
  CodeRow.points [94, 96, 168, 175, 180, 184, 749, 885, 2184, 8125, 43867, 65342, 65344, 65507]
  ++ CodeRow.each 1 [
    (706, 709), (722, 735), (741, 747), (751, 767), (900, 901), (8127, 8129), (8141, 8143), (8157, 8159),
    (8173, 8175), (8189, 8190), (12443, 12444), (42752, 42774), (42784, 42785), (42889, 42890),
    (43882, 43883), (64434, 64450), (127995, 127999)]

def otherSymbolRows : List CodeRow :=
  CodeRow.points [
    166, 169, 174, 176, 1154, 1758, 1769, 2038, 2554, 2928, 3066, 3199, 3407, 3449, 3859, 5741, 6464, 8468,
    8494, 8522, 8527, 8659, 12292, 12320, 12783, 12880, 43065, 64975, 65508, 65512, 65952, 68296, 71487,
    92997, 113820, 119365, 123215, 126124, 126254, 129008]
  ++ CodeRow.each 1 [
    (1421, 1422), (1550, 1551), (1789, 1790), (3059, 3064), (3841, 3843), (3861, 3863), (3866, 3871),
    (4030, 4037), (4039, 4044), (4046, 4047), (4053, 4056), (4254, 4255), (5008, 5017), (6622, 6655),
    (7009, 7018), (7028, 7036), (8448, 8449), (8451, 8454), (8456, 8457), (8470, 8471), (8478, 8483),
    (8506, 8507), (8524, 8525), (8586, 8587), (8597, 8601), (8604, 8607), (8609, 8610), (8612, 8613),
    (8615, 8621), (8623, 8653), (8656, 8657), (8661, 8691), (8960, 8967), (8972, 8991), (8994, 9000),
    (9003, 9083), (9085, 9114), (9140, 9179), (9186, 9257), (9280, 9290), (9372, 9449), (9472, 9654),
    (9656, 9664), (9666, 9719), (9728, 9838), (9840, 10087), (10132, 10175), (10240, 10495), (11008, 11055),
    (11077, 11078), (11085, 11123), (11126, 11157), (11159, 11263), (11493, 11498), (11856, 11857),
    (11904, 11929), (11931, 12019), (12032, 12245), (12272, 12287), (12306, 12307), (12342, 12343),
    (12350, 12351), (12688, 12689), (12694, 12703), (12736, 12773), (12800, 12830), (12842, 12871),
    (12896, 12927), (12938, 12976), (12992, 13311), (19904, 19967), (42128, 42182), (43048, 43051),
    (43062, 43063), (43639, 43641), (64832, 64847), (65021, 65023), (65517, 65518), (65532, 65533),
    (65847, 65855), (65913, 65929), (65932, 65934), (65936, 65948), (66000, 66044), (67703, 67704),
    (73685, 73692), (73697, 73713), (92988, 92991), (117760, 117999), (118016, 118451), (118608, 118723),
    (118784, 119029), (119040, 119078), (119081, 119140), (119146, 119148), (119171, 119172),
    (119180, 119209), (119214, 119274), (119296, 119361), (119552, 119638), (120832, 121343),
    (121399, 121402), (121453, 121460), (121462, 121475), (121477, 121478), (126976, 127019),
    (127024, 127123), (127136, 127150), (127153, 127167), (127169, 127183), (127185, 127221),
    (127245, 127405), (127462, 127490), (127504, 127547), (127552, 127560), (127568, 127569),
    (127584, 127589), (127744, 127994), (128000, 128727), (128732, 128748), (128752, 128764),
    (128768, 128886), (128891, 128985), (128992, 129003), (129024, 129035), (129040, 129095),
    (129104, 129113), (129120, 129159), (129168, 129197), (129200, 129211), (129216, 129217),
    (129280, 129619), (129632, 129645), (129648, 129660), (129664, 129673), (129679, 129734),
    (129742, 129756), (129759, 129769), (129776, 129784), (129792, 129938), (129940, 130031)]
  ++ CodeRow.each 2 [(3892, 3896), (8485, 8489)]

def spaceSeparatorRows : List CodeRow :=
  CodeRow.points [32, 160, 5760, 8239, 8287, 12288]
  ++ CodeRow.each 1 [(8192, 8202)]

def lineSeparatorRows : List CodeRow :=
  CodeRow.points [8232]

def paragraphSeparatorRows : List CodeRow :=
  CodeRow.points [8233]

def controlRows : List CodeRow :=
  CodeRow.each 1 [(0, 31), (127, 159)]

def formatRows : List CodeRow :=
  CodeRow.points [173, 1564, 1757, 1807, 2274, 6158, 65279, 69821, 69837, 917505]
  ++ CodeRow.each 1 [
    (1536, 1541), (2192, 2193), (8203, 8207), (8234, 8238), (8288, 8292), (8294, 8303), (65529, 65531),
    (78896, 78911), (113824, 113827), (119155, 119162), (917536, 917631)]

def privateUseRows : List CodeRow :=
  CodeRow.each 1 [(57344, 63743), (983040, 1048573), (1048576, 1114109)]

def casedLetterRows : List CodeRow := uppercaseLetterRows ++ lowercaseLetterRows ++ titlecaseLetterRows

def letterRows : List CodeRow := casedLetterRows ++ modifierLetterRows ++ otherLetterRows

def markRows : List CodeRow := nonspacingMarkRows ++ spacingMarkRows ++ enclosingMarkRows

def numberRows : List CodeRow := decimalNumberRows ++ letterNumberRows ++ otherNumberRows

def punctuationRows : List CodeRow :=
  connectorPunctuationRows ++ dashPunctuationRows ++ openPunctuationRows ++ closePunctuationRows
    ++ initialPunctuationRows ++ finalPunctuationRows ++ otherPunctuationRows

def symbolRows : List CodeRow := mathSymbolRows ++ currencySymbolRows ++ modifierSymbolRows ++ otherSymbolRows

def separatorRows : List CodeRow := spaceSeparatorRows ++ lineSeparatorRows ++ paragraphSeparatorRows

/-- The rows of letters, marks, numbers, punctuation, symbols and separators. -/
def writingRows : List CodeRow :=
  letterRows ++ markRows ++ numberRows ++ punctuationRows ++ symbolRows ++ separatorRows

def assignedRows : List CodeRow := writingRows ++ controlRows ++ formatRows ++ privateUseRows

end ModuleAudit
