import Mathlib.Logic.Basic

/-!
# Character sets and collations

The five tables of the source are `collationRows` and `charsetIds`, read in different directions.
-/

namespace DbProxy

abbrev CollationID := Nat

/-- The number of a collation, its name and its character set. -/
def collationRows : List (CollationID × String × String) := [
  (1, "big5_chinese_ci", "big5"), (2, "latin2_czech_cs", "latin2"), (3, "dec8_swedish_ci", "dec8"),
  (4, "cp850_general_ci", "cp850"), (5, "latin1_german1_ci", "latin1"), (6, "hp8_english_ci", "hp8"),
  (7, "koi8r_general_ci", "koi8r"), (8, "latin1_swedish_ci", "latin1"), (9, "latin2_general_ci", "latin2"),
  (10, "swe7_swedish_ci", "swe7"), (11, "ascii_general_ci", "ascii"), (12, "ujis_japanese_ci", "ujis"),
  (13, "sjis_japanese_ci", "sjis"), (14, "cp1251_bulgarian_ci", "cp1251"), (15, "latin1_danish_ci", "latin1"),
  (16, "hebrew_general_ci", "hebrew"), (18, "tis620_thai_ci", "tis620"), (19, "euckr_korean_ci", "euckr"),
  (20, "latin7_estonian_cs", "latin7"), (21, "latin2_hungarian_ci", "latin2"), (22, "koi8u_general_ci", "koi8u"),
  (23, "cp1251_ukrainian_ci", "cp1251"), (24, "gb2312_chinese_ci", "gb2312"), (25, "greek_general_ci", "greek"),
  (26, "cp1250_general_ci", "cp1250"), (27, "latin2_croatian_ci", "latin2"), (28, "gbk_chinese_ci", "gbk"),
  (29, "cp1257_lithuanian_ci", "cp1257"), (30, "latin5_turkish_ci", "latin5"), (31, "latin1_german2_ci", "latin1"),
  (32, "armscii8_general_ci", "armscii8"), (33, "utf8_general_ci", "utf8"), (34, "cp1250_czech_cs", "cp1250"),
  (35, "ucs2_general_ci", "ucs2"), (36, "cp866_general_ci", "cp866"), (37, "keybcs2_general_ci", "keybcs2"),
  (38, "macce_general_ci", "macce"), (39, "macroman_general_ci", "macroman"), (40, "cp852_general_ci", "cp852"),
  (41, "latin7_general_ci", "latin7"), (42, "latin7_general_cs", "latin7"), (43, "macce_bin", "macce"),
  (44, "cp1250_croatian_ci", "cp1250"), (45, "utf8mb4_general_ci", "utf8mb4"), (46, "utf8mb4_bin", "utf8mb4"),
  (47, "latin1_bin", "latin1"), (48, "latin1_general_ci", "latin1"), (49, "latin1_general_cs", "latin1"),
  (50, "cp1251_bin", "cp1251"), (51, "cp1251_general_ci", "cp1251"), (52, "cp1251_general_cs", "cp1251"),
  (53, "macroman_bin", "macroman"), (54, "utf16_general_ci", "utf16"), (55, "utf16_bin", "utf16"),
  (56, "utf16le_general_ci", "utf16le"), (57, "cp1256_general_ci", "cp1256"), (58, "cp1257_bin", "cp1257"),
  (59, "cp1257_general_ci", "cp1257"), (60, "utf32_general_ci", "utf32"), (61, "utf32_bin", "utf32"),
  (62, "utf16le_bin", "utf16le"), (63, "binary", "binary"), (64, "armscii8_bin", "armscii8"),
  (65, "ascii_bin", "ascii"), (66, "cp1250_bin", "cp1250"), (67, "cp1256_bin", "cp1256"), (68, "cp866_bin", "cp866"),
  (69, "dec8_bin", "dec8"), (70, "greek_bin", "greek"), (71, "hebrew_bin", "hebrew"), (72, "hp8_bin", "hp8"),
  (73, "keybcs2_bin", "keybcs2"), (74, "koi8r_bin", "koi8r"), (75, "koi8u_bin", "koi8u"),
  (77, "latin2_bin", "latin2"), (78, "latin5_bin", "latin5"), (79, "latin7_bin", "latin7"),
  (80, "cp850_bin", "cp850"), (81, "cp852_bin", "cp852"), (82, "swe7_bin", "swe7"), (83, "utf8_bin", "utf8"),
  (84, "big5_bin", "big5"), (85, "euckr_bin", "euckr"), (86, "gb2312_bin", "gb2312"), (87, "gbk_bin", "gbk"),
  (88, "sjis_bin", "sjis"), (89, "tis620_bin", "tis620"), (90, "ucs2_bin", "ucs2"), (91, "ujis_bin", "ujis"),
  (92, "geostd8_general_ci", "geostd8"), (93, "geostd8_bin", "geostd8"), (94, "latin1_spanish_ci", "latin1"),
  (95, "cp932_japanese_ci", "cp932"), (96, "cp932_bin", "cp932"), (97, "eucjpms_japanese_ci", "eucjpms"),
  (98, "eucjpms_bin", "eucjpms"), (99, "cp1250_polish_ci", "cp1250"), (101, "utf16_unicode_ci", "utf16"),
  (102, "utf16_icelandic_ci", "utf16"), (103, "utf16_latvian_ci", "utf16"), (104, "utf16_romanian_ci", "utf16"),
  (105, "utf16_slovenian_ci", "utf16"), (106, "utf16_polish_ci", "utf16"), (107, "utf16_estonian_ci", "utf16"),
  (108, "utf16_spanish_ci", "utf16"), (109, "utf16_swedish_ci", "utf16"), (110, "utf16_turkish_ci", "utf16"),
  (111, "utf16_czech_ci", "utf16"), (112, "utf16_danish_ci", "utf16"), (113, "utf16_lithuanian_ci", "utf16"),
  (114, "utf16_slovak_ci", "utf16"), (115, "utf16_spanish2_ci", "utf16"), (116, "utf16_roman_ci", "utf16"),
  (117, "utf16_persian_ci", "utf16"), (118, "utf16_esperanto_ci", "utf16"), (119, "utf16_hungarian_ci", "utf16"),
  (120, "utf16_sinhala_ci", "utf16"), (121, "utf16_german2_ci", "utf16"), (122, "utf16_croatian_ci", "utf16"),
  (123, "utf16_unicode_520_ci", "utf16"), (124, "utf16_vietnamese_ci", "utf16"), (128, "ucs2_unicode_ci", "ucs2"),
  (129, "ucs2_icelandic_ci", "ucs2"), (130, "ucs2_latvian_ci", "ucs2"), (131, "ucs2_romanian_ci", "ucs2"),
  (132, "ucs2_slovenian_ci", "ucs2"), (133, "ucs2_polish_ci", "ucs2"), (134, "ucs2_estonian_ci", "ucs2"),
  (135, "ucs2_spanish_ci", "ucs2"), (136, "ucs2_swedish_ci", "ucs2"), (137, "ucs2_turkish_ci", "ucs2"),
  (138, "ucs2_czech_ci", "ucs2"), (139, "ucs2_danish_ci", "ucs2"), (140, "ucs2_lithuanian_ci", "ucs2"),
  (141, "ucs2_slovak_ci", "ucs2"), (142, "ucs2_spanish2_ci", "ucs2"), (143, "ucs2_roman_ci", "ucs2"),
  (144, "ucs2_persian_ci", "ucs2"), (145, "ucs2_esperanto_ci", "ucs2"), (146, "ucs2_hungarian_ci", "ucs2"),
  (147, "ucs2_sinhala_ci", "ucs2"), (148, "ucs2_german2_ci", "ucs2"), (149, "ucs2_croatian_ci", "ucs2"),
  (150, "ucs2_unicode_520_ci", "ucs2"), (151, "ucs2_vietnamese_ci", "ucs2"),
  (159, "ucs2_general_mysql500_ci", "ucs2"), (160, "utf32_unicode_ci", "utf32"), (161, "utf32_icelandic_ci", "utf32"),
  (162, "utf32_latvian_ci", "utf32"), (163, "utf32_romanian_ci", "utf32"), (164, "utf32_slovenian_ci", "utf32"),
  (165, "utf32_polish_ci", "utf32"), (166, "utf32_estonian_ci", "utf32"), (167, "utf32_spanish_ci", "utf32"),
  (168, "utf32_swedish_ci", "utf32"), (169, "utf32_turkish_ci", "utf32"), (170, "utf32_czech_ci", "utf32"),
  (171, "utf32_danish_ci", "utf32"), (172, "utf32_lithuanian_ci", "utf32"), (173, "utf32_slovak_ci", "utf32"),
  (174, "utf32_spanish2_ci", "utf32"), (175, "utf32_roman_ci", "utf32"), (176, "utf32_persian_ci", "utf32"),
  (177, "utf32_esperanto_ci", "utf32"), (178, "utf32_hungarian_ci", "utf32"), (179, "utf32_sinhala_ci", "utf32"),
  (180, "utf32_german2_ci", "utf32"), (181, "utf32_croatian_ci", "utf32"), (182, "utf32_unicode_520_ci", "utf32"),
  (183, "utf32_vietnamese_ci", "utf32"), (192, "utf8_unicode_ci", "utf8"), (193, "utf8_icelandic_ci", "utf8"),
  (194, "utf8_latvian_ci", "utf8"), (195, "utf8_romanian_ci", "utf8"), (196, "utf8_slovenian_ci", "utf8"),
  (197, "utf8_polish_ci", "utf8"), (198, "utf8_estonian_ci", "utf8"), (199, "utf8_spanish_ci", "utf8"),
  (200, "utf8_swedish_ci", "utf8"), (201, "utf8_turkish_ci", "utf8"), (202, "utf8_czech_ci", "utf8"),
  (203, "utf8_danish_ci", "utf8"), (204, "utf8_lithuanian_ci", "utf8"), (205, "utf8_slovak_ci", "utf8"),
  (206, "utf8_spanish2_ci", "utf8"), (207, "utf8_roman_ci", "utf8"), (208, "utf8_persian_ci", "utf8"),
  (209, "utf8_esperanto_ci", "utf8"), (210, "utf8_hungarian_ci", "utf8"), (211, "utf8_sinhala_ci", "utf8"),
  (212, "utf8_german2_ci", "utf8"), (213, "utf8_croatian_ci", "utf8"), (214, "utf8_unicode_520_ci", "utf8"),
  (215, "utf8_vietnamese_ci", "utf8"), (223, "utf8_general_mysql500_ci", "utf8"),
  (224, "utf8mb4_unicode_ci", "utf8mb4"), (225, "utf8mb4_icelandic_ci", "utf8mb4"),
  (226, "utf8mb4_latvian_ci", "utf8mb4"), (227, "utf8mb4_romanian_ci", "utf8mb4"),
  (228, "utf8mb4_slovenian_ci", "utf8mb4"), (229, "utf8mb4_polish_ci", "utf8mb4"),
  (230, "utf8mb4_estonian_ci", "utf8mb4"), (231, "utf8mb4_spanish_ci", "utf8mb4"),
  (232, "utf8mb4_swedish_ci", "utf8mb4"), (233, "utf8mb4_turkish_ci", "utf8mb4"),
  (234, "utf8mb4_czech_ci", "utf8mb4"), (235, "utf8mb4_danish_ci", "utf8mb4"),
  (236, "utf8mb4_lithuanian_ci", "utf8mb4"), (237, "utf8mb4_slovak_ci", "utf8mb4"),
  (238, "utf8mb4_spanish2_ci", "utf8mb4"), (239, "utf8mb4_roman_ci", "utf8mb4"),
  (240, "utf8mb4_persian_ci", "utf8mb4"), (241, "utf8mb4_esperanto_ci", "utf8mb4"),
  (242, "utf8mb4_hungarian_ci", "utf8mb4"), (243, "utf8mb4_sinhala_ci", "utf8mb4"),
  (244, "utf8mb4_german2_ci", "utf8mb4"), (245, "utf8mb4_croatian_ci", "utf8mb4"),
  (246, "utf8mb4_unicode_520_ci", "utf8mb4"), (247, "utf8mb4_vietnamese_ci", "utf8mb4"),
  (248, "gb18030_chinese_ci", "gb18030"), (255, "utf8mb4_0900_ai_ci", "utf8mb4")]

/-- The default collation of each character set.  `gb18030` has collations, but is not in the table. -/
def charsetIdRows : List (String × CollationID) := [
  ("big5", 1), ("dec8", 3), ("cp850", 4), ("hp8", 6), ("koi8r", 7), ("latin1", 8), ("latin2", 9), ("swe7", 10),
  ("ascii", 11), ("ujis", 12), ("sjis", 13), ("hebrew", 16), ("tis620", 18), ("euckr", 19), ("koi8u", 22),
  ("gb2312", 24), ("greek", 25), ("cp1250", 26), ("gbk", 28), ("latin5", 30), ("armscii8", 32), ("utf8", 33),
  ("ucs2", 35), ("cp866", 36), ("keybcs2", 37), ("macce", 38), ("macroman", 39), ("cp852", 40), ("latin7", 41),
  ("utf8mb4", 45), ("cp1251", 51), ("utf16", 54), ("utf16le", 56), ("cp1256", 57), ("cp1257", 59), ("utf32", 60),
  ("binary", 63), ("geostd8", 92), ("cp932", 95), ("eucjpms", 97)]

/-- `mysql.Collations` -/
def collations (id : CollationID) : Option String := collationRows.lookup id |>.map Prod.fst

/-- `mysql.CollationNames` -/
def collationNames (name : String) : Option CollationID :=
  collationRows.find? (fun row => row.2.1 = name) |>.map Prod.fst

/-- `mysql.CollationNameToCharset` -/
def collationNameToCharset (name : String) : Option String :=
  collationRows.find? (fun row => row.2.1 = name) |>.map (·.2.2)

/-- `mysql.CharsetIds` -/
def charsetIds (charset : String) : Option CollationID := charsetIdRows.lookup charset

/-- `mysql.Charsets`, the name of the default collation. -/
def charsets (charset : String) : Option String := charsetIds charset >>= collations

end DbProxy
