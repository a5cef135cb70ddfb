import CodeAtlas.Text.CodePoints

/-! # Search tokens

Full-text search sees a text as its runs of letters and digits, case-folded and with
the diacritics of Latin letters removed.
-/

namespace CodeAtlas.Text

/-- Code points above ASCII that are neither letters nor numbers: marks, punctuation, symbols,
spaces and controls. A code point that no class lists counts as a letter. -/
def separatorRanges : Array (Nat × Nat) :=
  #[
    (0x80, 0xA9), (0xAB, 0xB1), (0xB4, 0xB4), (0xB6, 0xB8), (0xBB, 0xBB), (0xBF, 0xBF),
    (0xD7, 0xD7), (0xF7, 0xF7), (0x2C2, 0x2C5), (0x2D2, 0x2DF), (0x2E5, 0x2EB), (0x2ED, 0x2ED),
    (0x2EF, 0x36F), (0x375, 0x375), (0x37E, 0x37E), (0x384, 0x385), (0x387, 0x387), (0x3F6, 0x3F6),
    (0x482, 0x489), (0x55A, 0x55F), (0x589, 0x58A), (0x58F, 0x58F), (0x591, 0x5C7), (0x5F3, 0x5F4),
    (0x600, 0x604), (0x606, 0x61B), (0x61E, 0x61F), (0x64B, 0x65F), (0x66A, 0x66D), (0x670, 0x670),
    (0x6D4, 0x6D4), (0x6D6, 0x6E4), (0x6E7, 0x6ED), (0x6FD, 0x6FE), (0x700, 0x70D), (0x70F, 0x70F),
    (0x711, 0x711), (0x730, 0x74A), (0x7A6, 0x7B0), (0x7EB, 0x7F3), (0x7F6, 0x7F9), (0x816, 0x819),
    (0x81B, 0x823), (0x825, 0x827), (0x829, 0x82D), (0x830, 0x83E), (0x859, 0x85B), (0x85E, 0x85E),
    (0x8E4, 0x8FE), (0x900, 0x903), (0x93A, 0x93C), (0x93E, 0x94F), (0x951, 0x957), (0x962, 0x965),
    (0x970, 0x970), (0x981, 0x983), (0x9BC, 0x9BC), (0x9BE, 0x9C4), (0x9C7, 0x9C8), (0x9CB, 0x9CD),
    (0x9D7, 0x9D7), (0x9E2, 0x9E3), (0x9F2, 0x9F3), (0x9FA, 0x9FB), (0xA01, 0xA03), (0xA3C, 0xA3C),
    (0xA3E, 0xA42), (0xA47, 0xA48), (0xA4B, 0xA4D), (0xA51, 0xA51), (0xA70, 0xA71), (0xA75, 0xA75),
    (0xA81, 0xA83), (0xABC, 0xABC), (0xABE, 0xAC5), (0xAC7, 0xAC9), (0xACB, 0xACD), (0xAE2, 0xAE3),
    (0xAF0, 0xAF1), (0xB01, 0xB03), (0xB3C, 0xB3C), (0xB3E, 0xB44), (0xB47, 0xB48), (0xB4B, 0xB4D),
    (0xB56, 0xB57), (0xB62, 0xB63), (0xB70, 0xB70), (0xB82, 0xB82), (0xBBE, 0xBC2), (0xBC6, 0xBC8),
    (0xBCA, 0xBCD), (0xBD7, 0xBD7), (0xBF3, 0xBFA), (0xC01, 0xC03), (0xC3E, 0xC44), (0xC46, 0xC48),
    (0xC4A, 0xC4D), (0xC55, 0xC56), (0xC62, 0xC63), (0xC7F, 0xC7F), (0xC82, 0xC83), (0xCBC, 0xCBC),
    (0xCBE, 0xCC4), (0xCC6, 0xCC8), (0xCCA, 0xCCD), (0xCD5, 0xCD6), (0xCE2, 0xCE3), (0xD02, 0xD03),
    (0xD3E, 0xD44), (0xD46, 0xD48), (0xD4A, 0xD4D), (0xD57, 0xD57), (0xD62, 0xD63), (0xD79, 0xD79),
    (0xD82, 0xD83), (0xDCA, 0xDCA), (0xDCF, 0xDD4), (0xDD6, 0xDD6), (0xDD8, 0xDDF), (0xDF2, 0xDF4),
    (0xE31, 0xE31), (0xE34, 0xE3A), (0xE3F, 0xE3F), (0xE47, 0xE4F), (0xE5A, 0xE5B), (0xEB1, 0xEB1),
    (0xEB4, 0xEB9), (0xEBB, 0xEBC), (0xEC8, 0xECD), (0xF01, 0xF1F), (0xF34, 0xF3F), (0xF71, 0xF87),
    (0xF8D, 0xF97), (0xF99, 0xFBC), (0xFBE, 0xFCC), (0xFCE, 0xFDA), (0x102B, 0x103E), (0x104A, 0x104F),
    (0x1056, 0x1059), (0x105E, 0x1060), (0x1062, 0x1064), (0x1067, 0x106D), (0x1071, 0x1074), (0x1082, 0x108D),
    (0x108F, 0x108F), (0x109A, 0x109F), (0x10FB, 0x10FB), (0x135D, 0x1368), (0x1390, 0x1399), (0x1400, 0x1400),
    (0x166D, 0x166E), (0x1680, 0x1680), (0x169B, 0x169C), (0x16EB, 0x16ED), (0x1712, 0x1714), (0x1732, 0x1736),
    (0x1752, 0x1753), (0x1772, 0x1773), (0x17B4, 0x17D6), (0x17D8, 0x17DB), (0x17DD, 0x17DD), (0x1800, 0x180E),
    (0x18A9, 0x18A9), (0x1920, 0x192B), (0x1930, 0x193B), (0x1940, 0x1940), (0x1944, 0x1945), (0x19B0, 0x19C0),
    (0x19C8, 0x19C9), (0x19DE, 0x19FF), (0x1A17, 0x1A1B), (0x1A1E, 0x1A1F), (0x1A55, 0x1A5E), (0x1A60, 0x1A7C),
    (0x1A7F, 0x1A7F), (0x1AA0, 0x1AA6), (0x1AA8, 0x1AAD), (0x1B00, 0x1B04), (0x1B34, 0x1B44), (0x1B5A, 0x1B7C),
    (0x1B80, 0x1B82), (0x1BA1, 0x1BAD), (0x1BE6, 0x1BF3), (0x1BFC, 0x1BFF), (0x1C24, 0x1C37), (0x1C3B, 0x1C3F),
    (0x1C7E, 0x1C7F), (0x1CC0, 0x1CC7), (0x1CD0, 0x1CE8), (0x1CED, 0x1CED), (0x1CF2, 0x1CF4), (0x1DC0, 0x1DE6),
    (0x1DFC, 0x1DFF), (0x1FBD, 0x1FBD), (0x1FBF, 0x1FC1), (0x1FCD, 0x1FCF), (0x1FDD, 0x1FDF), (0x1FED, 0x1FEF),
    (0x1FFD, 0x1FFE), (0x2000, 0x2064), (0x206A, 0x206F), (0x207A, 0x207E), (0x208A, 0x208E), (0x20A0, 0x20B9),
    (0x20D0, 0x20F0), (0x2100, 0x2101), (0x2103, 0x2106), (0x2108, 0x2109), (0x2114, 0x2114), (0x2116, 0x2118),
    (0x211E, 0x2123), (0x2125, 0x2125), (0x2127, 0x2127), (0x2129, 0x2129), (0x212E, 0x212E), (0x213A, 0x213B),
    (0x2140, 0x2144), (0x214A, 0x214D), (0x214F, 0x214F), (0x2190, 0x23F3), (0x2400, 0x2426), (0x2440, 0x244A),
    (0x249C, 0x24E9), (0x2500, 0x26FF), (0x2701, 0x2775), (0x2794, 0x2B4C), (0x2B50, 0x2B59), (0x2CE5, 0x2CEA),
    (0x2CEF, 0x2CF1), (0x2CF9, 0x2CFC), (0x2CFE, 0x2CFF), (0x2D70, 0x2D70), (0x2D7F, 0x2D7F), (0x2DE0, 0x2E2E),
    (0x2E30, 0x2E3B), (0x2E80, 0x2E99), (0x2E9B, 0x2EF3), (0x2F00, 0x2FD5), (0x2FF0, 0x2FFB), (0x3000, 0x3004),
    (0x3008, 0x3020), (0x302A, 0x3030), (0x3036, 0x3037), (0x303D, 0x303F), (0x3099, 0x309C), (0x30A0, 0x30A0),
    (0x30FB, 0x30FB), (0x3190, 0x3191), (0x3196, 0x319F), (0x31C0, 0x31E3), (0x3200, 0x321E), (0x322A, 0x3247),
    (0x3250, 0x3250), (0x3260, 0x327F), (0x328A, 0x32B0), (0x32C0, 0x32FE), (0x3300, 0x33FF), (0x4DC0, 0x4DFF),
    (0xA490, 0xA4C6), (0xA4FE, 0xA4FF), (0xA60D, 0xA60F), (0xA66F, 0xA67E), (0xA69F, 0xA69F), (0xA6F0, 0xA6F7),
    (0xA700, 0xA716), (0xA720, 0xA721), (0xA789, 0xA78A), (0xA802, 0xA802), (0xA806, 0xA806), (0xA80B, 0xA80B),
    (0xA823, 0xA82B), (0xA836, 0xA839), (0xA874, 0xA877), (0xA880, 0xA881), (0xA8B4, 0xA8C4), (0xA8CE, 0xA8CF),
    (0xA8E0, 0xA8F1), (0xA8F8, 0xA8FA), (0xA926, 0xA92F), (0xA947, 0xA953), (0xA95F, 0xA95F), (0xA980, 0xA983),
    (0xA9B3, 0xA9CD), (0xA9DE, 0xA9DF), (0xAA29, 0xAA36), (0xAA43, 0xAA43), (0xAA4C, 0xAA4D), (0xAA5C, 0xAA5F),
    (0xAA77, 0xAA79), (0xAA7B, 0xAA7B), (0xAAB0, 0xAAB0), (0xAAB2, 0xAAB4), (0xAAB7, 0xAAB8), (0xAABE, 0xAABF),
    (0xAAC1, 0xAAC1), (0xAADE, 0xAADF), (0xAAEB, 0xAAF1), (0xAAF5, 0xAAF6), (0xABE3, 0xABED), (0xFB1E, 0xFB1E),
    (0xFB29, 0xFB29), (0xFBB2, 0xFBC1), (0xFD3E, 0xFD3F), (0xFDFC, 0xFDFD), (0xFE00, 0xFE19), (0xFE20, 0xFE26),
    (0xFE30, 0xFE52), (0xFE54, 0xFE66), (0xFE68, 0xFE6B), (0xFEFF, 0xFEFF), (0xFF01, 0xFF0F), (0xFF1A, 0xFF20),
    (0xFF3B, 0xFF40), (0xFF5B, 0xFF65), (0xFFE0, 0xFFE6), (0xFFE8, 0xFFEE), (0xFFF9, 0xFFFF), (0x10100, 0x10102),
    (0x10137, 0x1013F), (0x10179, 0x10189), (0x10190, 0x1019B), (0x101D0, 0x101FD), (0x1039F, 0x1039F), (0x103D0, 0x103D0),
    (0x10857, 0x10857), (0x1091F, 0x1091F), (0x1093F, 0x1093F), (0x10A01, 0x10A03), (0x10A05, 0x10A06), (0x10A0C, 0x10A0F),
    (0x10A38, 0x10A3A), (0x10A3F, 0x10A3F), (0x10A50, 0x10A58), (0x10A7F, 0x10A7F), (0x10B39, 0x10B3F), (0x11000, 0x11002),
    (0x11038, 0x1104D), (0x11080, 0x11082), (0x110B0, 0x110C1), (0x11100, 0x11102), (0x11127, 0x11134), (0x11140, 0x11143),
    (0x11180, 0x11182), (0x111B3, 0x111C0), (0x111C5, 0x111C8), (0x116AB, 0x116B7), (0x12470, 0x12473), (0x16F51, 0x16F7E),
    (0x16F8F, 0x16F92), (0x1D000, 0x1D0F5), (0x1D100, 0x1D126), (0x1D129, 0x1D1DD), (0x1D200, 0x1D245), (0x1D300, 0x1D356),
    (0x1D6C1, 0x1D6C1), (0x1D6DB, 0x1D6DB), (0x1D6FB, 0x1D6FB), (0x1D715, 0x1D715), (0x1D735, 0x1D735), (0x1D74F, 0x1D74F),
    (0x1D76F, 0x1D76F), (0x1D789, 0x1D789), (0x1D7A9, 0x1D7A9), (0x1D7C3, 0x1D7C3), (0x1EEF0, 0x1EEF1), (0x1F000, 0x1F02B),
    (0x1F030, 0x1F093), (0x1F0A0, 0x1F0AE), (0x1F0B1, 0x1F0BE), (0x1F0C1, 0x1F0CF), (0x1F0D1, 0x1F0DF), (0x1F110, 0x1F12E),
    (0x1F130, 0x1F16B), (0x1F170, 0x1F19A), (0x1F1E6, 0x1F202), (0x1F210, 0x1F23A), (0x1F240, 0x1F248), (0x1F250, 0x1F251),
    (0x1F300, 0x1F320), (0x1F330, 0x1F335), (0x1F337, 0x1F37C), (0x1F380, 0x1F393), (0x1F3A0, 0x1F3C4), (0x1F3C6, 0x1F3CA),
    (0x1F3E0, 0x1F3F0), (0x1F400, 0x1F43E), (0x1F440, 0x1F440), (0x1F442, 0x1F4F7), (0x1F4F9, 0x1F4FC), (0x1F500, 0x1F53D),
    (0x1F540, 0x1F543), (0x1F550, 0x1F567), (0x1F5FB, 0x1F640), (0x1F645, 0x1F64F), (0x1F680, 0x1F6C5), (0x1F700, 0x1F773),
    (0xE0001, 0xE0001), (0xE0020, 0xE007F), (0xE0100, 0xE01EF)]

/-- Differences from a letter above ASCII to its simple case folding. -/
def foldMap : Array (Nat × Nat × Nat × Int) :=
  #[
    (0xB5, 0xB5, 1, 775), (0xC0, 0xD6, 1, 32), (0xD8, 0xDE, 1, 32), (0x100, 0x12E, 2, 1),
    (0x132, 0x136, 2, 1), (0x139, 0x147, 2, 1), (0x14A, 0x176, 2, 1), (0x178, 0x178, 1, -121),
    (0x179, 0x17D, 2, 1), (0x181, 0x181, 1, 210), (0x182, 0x184, 2, 1), (0x186, 0x186, 1, 206),
    (0x187, 0x187, 1, 1), (0x189, 0x18A, 1, 205), (0x18B, 0x18B, 1, 1), (0x18E, 0x18E, 1, 79),
    (0x18F, 0x18F, 1, 202), (0x190, 0x190, 1, 203), (0x191, 0x191, 1, 1), (0x193, 0x193, 1, 205),
    (0x194, 0x194, 1, 207), (0x196, 0x196, 1, 211), (0x197, 0x197, 1, 209), (0x198, 0x198, 1, 1),
    (0x19C, 0x19C, 1, 211), (0x19D, 0x19D, 1, 213), (0x19F, 0x19F, 1, 214), (0x1A0, 0x1A4, 2, 1),
    (0x1A6, 0x1A6, 1, 218), (0x1A7, 0x1A7, 1, 1), (0x1A9, 0x1A9, 1, 218), (0x1AC, 0x1AC, 1, 1),
    (0x1AE, 0x1AE, 1, 218), (0x1AF, 0x1AF, 1, 1), (0x1B1, 0x1B2, 1, 217), (0x1B3, 0x1B5, 2, 1),
    (0x1B7, 0x1B7, 1, 219), (0x1B8, 0x1B8, 1, 1), (0x1BC, 0x1BC, 1, 1), (0x1C4, 0x1C4, 1, 2),
    (0x1C5, 0x1C5, 1, 1), (0x1C7, 0x1C7, 1, 2), (0x1C8, 0x1C8, 1, 1), (0x1CA, 0x1CA, 1, 2),
    (0x1CB, 0x1DB, 2, 1), (0x1DE, 0x1EE, 2, 1), (0x1F1, 0x1F1, 1, 2), (0x1F2, 0x1F4, 2, 1),
    (0x1F6, 0x1F6, 1, -97), (0x1F7, 0x1F7, 1, -56), (0x1F8, 0x21E, 2, 1), (0x220, 0x220, 1, -130),
    (0x222, 0x232, 2, 1), (0x23A, 0x23A, 1, 10795), (0x23B, 0x23B, 1, 1), (0x23D, 0x23D, 1, -163),
    (0x23E, 0x23E, 1, 10792), (0x241, 0x241, 1, 1), (0x243, 0x243, 1, -195), (0x244, 0x244, 1, 69),
    (0x245, 0x245, 1, 71), (0x246, 0x24E, 2, 1), (0x370, 0x372, 2, 1), (0x376, 0x376, 1, 1),
    (0x386, 0x386, 1, 38), (0x388, 0x38A, 1, 37), (0x38C, 0x38C, 1, 64), (0x38E, 0x38F, 1, 63),
    (0x391, 0x3A1, 1, 32), (0x3A3, 0x3AB, 1, 32), (0x3C2, 0x3C2, 1, 1), (0x3CF, 0x3CF, 1, 8),
    (0x3D0, 0x3D0, 1, -30), (0x3D1, 0x3D1, 1, -25), (0x3D5, 0x3D5, 1, -15), (0x3D6, 0x3D6, 1, -22),
    (0x3D8, 0x3EE, 2, 1), (0x3F0, 0x3F0, 1, -54), (0x3F1, 0x3F1, 1, -48), (0x3F4, 0x3F4, 1, -60),
    (0x3F5, 0x3F5, 1, -64), (0x3F7, 0x3F7, 1, 1), (0x3F9, 0x3F9, 1, -7), (0x3FA, 0x3FA, 1, 1),
    (0x3FD, 0x3FF, 1, -130), (0x400, 0x40F, 1, 80), (0x410, 0x42F, 1, 32), (0x460, 0x480, 2, 1),
    (0x48A, 0x4BE, 2, 1), (0x4C0, 0x4C0, 1, 15), (0x4C1, 0x4CD, 2, 1), (0x4D0, 0x526, 2, 1),
    (0x531, 0x556, 1, 48), (0x10A0, 0x10C5, 1, 7264), (0x10C7, 0x10C7, 1, 7264), (0x10CD, 0x10CD, 1, 7264),
    (0x1E00, 0x1E94, 2, 1), (0x1E9E, 0x1E9E, 1, -7615), (0x1EA0, 0x1EFE, 2, 1), (0x1F08, 0x1F0F, 1, -8),
    (0x1F18, 0x1F1D, 1, -8), (0x1F28, 0x1F2F, 1, -8), (0x1F38, 0x1F3F, 1, -8), (0x1F48, 0x1F4D, 1, -8),
    (0x1F59, 0x1F5F, 2, -8), (0x1F68, 0x1F6F, 1, -8), (0x1F88, 0x1F8F, 1, -8), (0x1F98, 0x1F9F, 1, -8),
    (0x1FA8, 0x1FAF, 1, -8), (0x1FB8, 0x1FB9, 1, -8), (0x1FBA, 0x1FBB, 1, -74), (0x1FBC, 0x1FBC, 1, -9),
    (0x1FBE, 0x1FBE, 1, -7173), (0x1FC8, 0x1FCB, 1, -86), (0x1FCC, 0x1FCC, 1, -9), (0x1FD8, 0x1FD9, 1, -8),
    (0x1FDA, 0x1FDB, 1, -100), (0x1FE8, 0x1FE9, 1, -8), (0x1FEA, 0x1FEB, 1, -112), (0x1FEC, 0x1FEC, 1, -7),
    (0x1FF8, 0x1FF9, 1, -128), (0x1FFA, 0x1FFB, 1, -126), (0x1FFC, 0x1FFC, 1, -9), (0x2126, 0x2126, 1, -7517),
    (0x212B, 0x212B, 1, -8262), (0x2132, 0x2132, 1, 28), (0x2160, 0x216F, 1, 16), (0x2183, 0x2183, 1, 1),
    (0x2C00, 0x2C2E, 1, 48), (0x2C60, 0x2C60, 1, 1), (0x2C62, 0x2C62, 1, -10743), (0x2C63, 0x2C63, 1, -3814),
    (0x2C64, 0x2C64, 1, -10727), (0x2C67, 0x2C6B, 2, 1), (0x2C6D, 0x2C6D, 1, -10780), (0x2C6E, 0x2C6E, 1, -10749),
    (0x2C6F, 0x2C6F, 1, -10783), (0x2C70, 0x2C70, 1, -10782), (0x2C72, 0x2C72, 1, 1), (0x2C75, 0x2C75, 1, 1),
    (0x2C7E, 0x2C7F, 1, -10815), (0x2C80, 0x2CE2, 2, 1), (0x2CEB, 0x2CED, 2, 1), (0x2CF2, 0x2CF2, 1, 1),
    (0xA640, 0xA66C, 2, 1), (0xA680, 0xA696, 2, 1), (0xA722, 0xA72E, 2, 1), (0xA732, 0xA76E, 2, 1),
    (0xA779, 0xA77B, 2, 1), (0xA77D, 0xA77D, 1, -35332), (0xA77E, 0xA786, 2, 1), (0xA78B, 0xA78B, 1, 1),
    (0xA78D, 0xA78D, 1, -42280), (0xA790, 0xA792, 2, 1), (0xA7A0, 0xA7A8, 2, 1), (0xA7AA, 0xA7AA, 1, -42308),
    (0xFF21, 0xFF3A, 1, 32), (0x10400, 0x10427, 1, 40)]

/-- Latin letters with one diacritic and the letter that remains without it. -/
def plainLetters : Array (Nat × Nat × Nat × Char) :=
  #[
    (0xE0, 0xE5, 1, 'a'), (0xE7, 0xE7, 1, 'c'), (0xE8, 0xEB, 1, 'e'), (0xEC, 0xEF, 1, 'i'),
    (0xF1, 0xF1, 1, 'n'), (0xF2, 0xF6, 1, 'o'), (0xF9, 0xFC, 1, 'u'), (0xFD, 0xFF, 2, 'y'),
    (0x101, 0x105, 2, 'a'), (0x107, 0x10D, 2, 'c'), (0x10F, 0x10F, 1, 'd'), (0x113, 0x11B, 2, 'e'),
    (0x11D, 0x123, 2, 'g'), (0x125, 0x125, 1, 'h'), (0x129, 0x12F, 2, 'i'), (0x130, 0x130, 1, 'i'),
    (0x135, 0x135, 1, 'j'), (0x137, 0x137, 1, 'k'), (0x13A, 0x13E, 2, 'l'), (0x144, 0x148, 2, 'n'),
    (0x14D, 0x151, 2, 'o'), (0x155, 0x159, 2, 'r'), (0x15B, 0x161, 2, 's'), (0x163, 0x165, 2, 't'),
    (0x169, 0x173, 2, 'u'), (0x175, 0x175, 1, 'w'), (0x177, 0x177, 1, 'y'), (0x17A, 0x17E, 2, 'z'),
    (0x17F, 0x17F, 1, 's'), (0x1A1, 0x1A1, 1, 'o'), (0x1B0, 0x1B0, 1, 'u'), (0x1CE, 0x1CE, 1, 'a'),
    (0x1D0, 0x1D0, 1, 'i'), (0x1D2, 0x1D2, 1, 'o'), (0x1D4, 0x1D4, 1, 'u'), (0x1E7, 0x1E7, 1, 'g'),
    (0x1E9, 0x1E9, 1, 'k'), (0x1EB, 0x1EB, 1, 'o'), (0x1F0, 0x1F0, 1, 'j'), (0x1F5, 0x1F5, 1, 'g'),
    (0x1F9, 0x1F9, 1, 'n'), (0x201, 0x203, 2, 'a'), (0x205, 0x207, 2, 'e'), (0x209, 0x20B, 2, 'i'),
    (0x20D, 0x20F, 2, 'o'), (0x211, 0x213, 2, 'r'), (0x215, 0x217, 2, 'u'), (0x219, 0x219, 1, 's'),
    (0x21B, 0x21B, 1, 't'), (0x21F, 0x21F, 1, 'h'), (0x227, 0x227, 1, 'a'), (0x229, 0x229, 1, 'e'),
    (0x22F, 0x22F, 1, 'o'), (0x233, 0x233, 1, 'y'), (0x1E01, 0x1E01, 1, 'a'), (0x1E03, 0x1E07, 2, 'b'),
    (0x1E0B, 0x1E13, 2, 'd'), (0x1E19, 0x1E1B, 2, 'e'), (0x1E1F, 0x1E1F, 1, 'f'), (0x1E21, 0x1E21, 1, 'g'),
    (0x1E23, 0x1E2B, 2, 'h'), (0x1E2D, 0x1E2D, 1, 'i'), (0x1E31, 0x1E35, 2, 'k'), (0x1E37, 0x1E37, 1, 'l'),
    (0x1E3B, 0x1E3D, 2, 'l'), (0x1E3F, 0x1E43, 2, 'm'), (0x1E45, 0x1E4B, 2, 'n'), (0x1E55, 0x1E57, 2, 'p'),
    (0x1E59, 0x1E5B, 2, 'r'), (0x1E5F, 0x1E5F, 1, 'r'), (0x1E61, 0x1E63, 2, 's'), (0x1E6B, 0x1E71, 2, 't'),
    (0x1E73, 0x1E77, 2, 'u'), (0x1E7D, 0x1E7F, 2, 'v'), (0x1E81, 0x1E89, 2, 'w'), (0x1E8B, 0x1E8D, 2, 'x'),
    (0x1E8F, 0x1E8F, 1, 'y'), (0x1E91, 0x1E95, 2, 'z'), (0x1E96, 0x1E96, 1, 'h'), (0x1E97, 0x1E97, 1, 't'),
    (0x1E98, 0x1E98, 1, 'w'), (0x1E99, 0x1E99, 1, 'y'), (0x1E9B, 0x1E9B, 1, 's'), (0x1EA1, 0x1EA3, 2, 'a'),
    (0x1EB9, 0x1EBD, 2, 'e'), (0x1EC9, 0x1ECB, 2, 'i'), (0x1ECD, 0x1ECF, 2, 'o'), (0x1EE5, 0x1EE7, 2, 'u'),
    (0x1EF3, 0x1EF9, 2, 'y'), (0x212A, 0x212A, 1, 'k')]

def isTokenChar (c : Char) : Bool :=
  if c.toNat < 0x80 then c.isAlphanum else !inRanges separatorRanges c.toNat

/-- A combining mark that continues a token and leaves no trace in it. -/
def isCombiningMark (c : Char) : Bool :=
  let n := c.toNat
  (0x300 ≤ n && n < 0x320 && (0x08029FDF >>> (n - 0x300)) % 2 == 1)
    || (0x320 ≤ n && n ≤ 0x331 && (0x000361F8 >>> (n - 0x320)) % 2 == 1)

def foldChar (c : Char) : Char :=
  if c.toNat < 0x80 then c.toLower
  else
    let n := shifted foldMap c.toNat
    match stepValue? plainLetters n with
    | some letter => letter
    | none => Char.ofNat n

/-- The tokens of a text; `current` is the token being read, last character first. -/
def tokensFrom (current : List Char) : List Char → List (List Char)
  | [] => if current.isEmpty then [] else [current.reverse]
  | c :: cs =>
    if isTokenChar c then tokensFrom (foldChar c :: current) cs
    else if !current.isEmpty && isCombiningMark c then tokensFrom current cs
    else if current.isEmpty then tokensFrom [] cs
    else current.reverse :: tokensFrom [] cs

def searchTokens (s : String) : List (List Char) := tokensFrom [] s.toList

end CodeAtlas.Text
