import LineCode.Table

/-!
# The standard code

The 8b/10b assignment: every data character, then the twelve control characters. Words
are written in line order, split after the sixth bit into the part that codes `x` and
the part that codes `y`; the first word of a row is for a negative entering disparity,
the second for a positive one. `Table.standard` is the table of these rows, which have
no fault (`standardRows_sound`, `standardRows_nodup`).
-/

namespace LineCode

/-- `D0.0` to `D31.0`. -/
def dataRows0 : List Row :=
  [⟨.data 0x00, 0b100111_0100, 0b011000_1011⟩,
   ⟨.data 0x01, 0b011101_0100, 0b100010_1011⟩,
   ⟨.data 0x02, 0b101101_0100, 0b010010_1011⟩,
   ⟨.data 0x03, 0b110001_1011, 0b110001_0100⟩,
   ⟨.data 0x04, 0b110101_0100, 0b001010_1011⟩,
   ⟨.data 0x05, 0b101001_1011, 0b101001_0100⟩,
   ⟨.data 0x06, 0b011001_1011, 0b011001_0100⟩,
   ⟨.data 0x07, 0b111000_1011, 0b000111_0100⟩,
   ⟨.data 0x08, 0b111001_0100, 0b000110_1011⟩,
   ⟨.data 0x09, 0b100101_1011, 0b100101_0100⟩,
   ⟨.data 0x0A, 0b010101_1011, 0b010101_0100⟩,
   ⟨.data 0x0B, 0b110100_1011, 0b110100_0100⟩,
   ⟨.data 0x0C, 0b001101_1011, 0b001101_0100⟩,
   ⟨.data 0x0D, 0b101100_1011, 0b101100_0100⟩,
   ⟨.data 0x0E, 0b011100_1011, 0b011100_0100⟩,
   ⟨.data 0x0F, 0b010111_0100, 0b101000_1011⟩,
   ⟨.data 0x10, 0b011011_0100, 0b100100_1011⟩,
   ⟨.data 0x11, 0b100011_1011, 0b100011_0100⟩,
   ⟨.data 0x12, 0b010011_1011, 0b010011_0100⟩,
   ⟨.data 0x13, 0b110010_1011, 0b110010_0100⟩,
   ⟨.data 0x14, 0b001011_1011, 0b001011_0100⟩,
   ⟨.data 0x15, 0b101010_1011, 0b101010_0100⟩,
   ⟨.data 0x16, 0b011010_1011, 0b011010_0100⟩,
   ⟨.data 0x17, 0b111010_0100, 0b000101_1011⟩,
   ⟨.data 0x18, 0b110011_0100, 0b001100_1011⟩,
   ⟨.data 0x19, 0b100110_1011, 0b100110_0100⟩,
   ⟨.data 0x1A, 0b010110_1011, 0b010110_0100⟩,
   ⟨.data 0x1B, 0b110110_0100, 0b001001_1011⟩,
   ⟨.data 0x1C, 0b001110_1011, 0b001110_0100⟩,
   ⟨.data 0x1D, 0b101110_0100, 0b010001_1011⟩,
   ⟨.data 0x1E, 0b011110_0100, 0b100001_1011⟩,
   ⟨.data 0x1F, 0b101011_0100, 0b010100_1011⟩]

/-- `D0.1` to `D31.1`. -/
def dataRows1 : List Row :=
  [⟨.data 0x20, 0b100111_1001, 0b011000_1001⟩,
   ⟨.data 0x21, 0b011101_1001, 0b100010_1001⟩,
   ⟨.data 0x22, 0b101101_1001, 0b010010_1001⟩,
   ⟨.data 0x23, 0b110001_1001, 0b110001_1001⟩,
   ⟨.data 0x24, 0b110101_1001, 0b001010_1001⟩,
   ⟨.data 0x25, 0b101001_1001, 0b101001_1001⟩,
   ⟨.data 0x26, 0b011001_1001, 0b011001_1001⟩,
   ⟨.data 0x27, 0b111000_1001, 0b000111_1001⟩,
   ⟨.data 0x28, 0b111001_1001, 0b000110_1001⟩,
   ⟨.data 0x29, 0b100101_1001, 0b100101_1001⟩,
   ⟨.data 0x2A, 0b010101_1001, 0b010101_1001⟩,
   ⟨.data 0x2B, 0b110100_1001, 0b110100_1001⟩,
   ⟨.data 0x2C, 0b001101_1001, 0b001101_1001⟩,
   ⟨.data 0x2D, 0b101100_1001, 0b101100_1001⟩,
   ⟨.data 0x2E, 0b011100_1001, 0b011100_1001⟩,
   ⟨.data 0x2F, 0b010111_1001, 0b101000_1001⟩,
   ⟨.data 0x30, 0b011011_1001, 0b100100_1001⟩,
   ⟨.data 0x31, 0b100011_1001, 0b100011_1001⟩,
   ⟨.data 0x32, 0b010011_1001, 0b010011_1001⟩,
   ⟨.data 0x33, 0b110010_1001, 0b110010_1001⟩,
   ⟨.data 0x34, 0b001011_1001, 0b001011_1001⟩,
   ⟨.data 0x35, 0b101010_1001, 0b101010_1001⟩,
   ⟨.data 0x36, 0b011010_1001, 0b011010_1001⟩,
   ⟨.data 0x37, 0b111010_1001, 0b000101_1001⟩,
   ⟨.data 0x38, 0b110011_1001, 0b001100_1001⟩,
   ⟨.data 0x39, 0b100110_1001, 0b100110_1001⟩,
   ⟨.data 0x3A, 0b010110_1001, 0b010110_1001⟩,
   ⟨.data 0x3B, 0b110110_1001, 0b001001_1001⟩,
   ⟨.data 0x3C, 0b001110_1001, 0b001110_1001⟩,
   ⟨.data 0x3D, 0b101110_1001, 0b010001_1001⟩,
   ⟨.data 0x3E, 0b011110_1001, 0b100001_1001⟩,
   ⟨.data 0x3F, 0b101011_1001, 0b010100_1001⟩]

/-- `D0.2` to `D31.2`. -/
def dataRows2 : List Row :=
  [⟨.data 0x40, 0b100111_0101, 0b011000_0101⟩,
   ⟨.data 0x41, 0b011101_0101, 0b100010_0101⟩,
   ⟨.data 0x42, 0b101101_0101, 0b010010_0101⟩,
   ⟨.data 0x43, 0b110001_0101, 0b110001_0101⟩,
   ⟨.data 0x44, 0b110101_0101, 0b001010_0101⟩,
   ⟨.data 0x45, 0b101001_0101, 0b101001_0101⟩,
   ⟨.data 0x46, 0b011001_0101, 0b011001_0101⟩,
   ⟨.data 0x47, 0b111000_0101, 0b000111_0101⟩,
   ⟨.data 0x48, 0b111001_0101, 0b000110_0101⟩,
   ⟨.data 0x49, 0b100101_0101, 0b100101_0101⟩,
   ⟨.data 0x4A, 0b010101_0101, 0b010101_0101⟩,
   ⟨.data 0x4B, 0b110100_0101, 0b110100_0101⟩,
   ⟨.data 0x4C, 0b001101_0101, 0b001101_0101⟩,
   ⟨.data 0x4D, 0b101100_0101, 0b101100_0101⟩,
   ⟨.data 0x4E, 0b011100_0101, 0b011100_0101⟩,
   ⟨.data 0x4F, 0b010111_0101, 0b101000_0101⟩,
   ⟨.data 0x50, 0b011011_0101, 0b100100_0101⟩,
   ⟨.data 0x51, 0b100011_0101, 0b100011_0101⟩,
   ⟨.data 0x52, 0b010011_0101, 0b010011_0101⟩,
   ⟨.data 0x53, 0b110010_0101, 0b110010_0101⟩,
   ⟨.data 0x54, 0b001011_0101, 0b001011_0101⟩,
   ⟨.data 0x55, 0b101010_0101, 0b101010_0101⟩,
   ⟨.data 0x56, 0b011010_0101, 0b011010_0101⟩,
   ⟨.data 0x57, 0b111010_0101, 0b000101_0101⟩,
   ⟨.data 0x58, 0b110011_0101, 0b001100_0101⟩,
   ⟨.data 0x59, 0b100110_0101, 0b100110_0101⟩,
   ⟨.data 0x5A, 0b010110_0101, 0b010110_0101⟩,
   ⟨.data 0x5B, 0b110110_0101, 0b001001_0101⟩,
   ⟨.data 0x5C, 0b001110_0101, 0b001110_0101⟩,
   ⟨.data 0x5D, 0b101110_0101, 0b010001_0101⟩,
   ⟨.data 0x5E, 0b011110_0101, 0b100001_0101⟩,
   ⟨.data 0x5F, 0b101011_0101, 0b010100_0101⟩]

/-- `D0.3` to `D31.3`. -/
def dataRows3 : List Row :=
  [⟨.data 0x60, 0b100111_0011, 0b011000_1100⟩,
   ⟨.data 0x61, 0b011101_0011, 0b100010_1100⟩,
   ⟨.data 0x62, 0b101101_0011, 0b010010_1100⟩,
   ⟨.data 0x63, 0b110001_1100, 0b110001_0011⟩,
   ⟨.data 0x64, 0b110101_0011, 0b001010_1100⟩,
   ⟨.data 0x65, 0b101001_1100, 0b101001_0011⟩,
   ⟨.data 0x66, 0b011001_1100, 0b011001_0011⟩,
   ⟨.data 0x67, 0b111000_1100, 0b000111_0011⟩,
   ⟨.data 0x68, 0b111001_0011, 0b000110_1100⟩,
   ⟨.data 0x69, 0b100101_1100, 0b100101_0011⟩,
   ⟨.data 0x6A, 0b010101_1100, 0b010101_0011⟩,
   ⟨.data 0x6B, 0b110100_1100, 0b110100_0011⟩,
   ⟨.data 0x6C, 0b001101_1100, 0b001101_0011⟩,
   ⟨.data 0x6D, 0b101100_1100, 0b101100_0011⟩,
   ⟨.data 0x6E, 0b011100_1100, 0b011100_0011⟩,
   ⟨.data 0x6F, 0b010111_0011, 0b101000_1100⟩,
   ⟨.data 0x70, 0b011011_0011, 0b100100_1100⟩,
   ⟨.data 0x71, 0b100011_1100, 0b100011_0011⟩,
   ⟨.data 0x72, 0b010011_1100, 0b010011_0011⟩,
   ⟨.data 0x73, 0b110010_1100, 0b110010_0011⟩,
   ⟨.data 0x74, 0b001011_1100, 0b001011_0011⟩,
   ⟨.data 0x75, 0b101010_1100, 0b101010_0011⟩,
   ⟨.data 0x76, 0b011010_1100, 0b011010_0011⟩,
   ⟨.data 0x77, 0b111010_0011, 0b000101_1100⟩,
   ⟨.data 0x78, 0b110011_0011, 0b001100_1100⟩,
   ⟨.data 0x79, 0b100110_1100, 0b100110_0011⟩,
   ⟨.data 0x7A, 0b010110_1100, 0b010110_0011⟩,
   ⟨.data 0x7B, 0b110110_0011, 0b001001_1100⟩,
   ⟨.data 0x7C, 0b001110_1100, 0b001110_0011⟩,
   ⟨.data 0x7D, 0b101110_0011, 0b010001_1100⟩,
   ⟨.data 0x7E, 0b011110_0011, 0b100001_1100⟩,
   ⟨.data 0x7F, 0b101011_0011, 0b010100_1100⟩]

/-- `D0.4` to `D31.4`. -/
def dataRows4 : List Row :=
  [⟨.data 0x80, 0b100111_0010, 0b011000_1101⟩,
   ⟨.data 0x81, 0b011101_0010, 0b100010_1101⟩,
   ⟨.data 0x82, 0b101101_0010, 0b010010_1101⟩,
   ⟨.data 0x83, 0b110001_1101, 0b110001_0010⟩,
   ⟨.data 0x84, 0b110101_0010, 0b001010_1101⟩,
   ⟨.data 0x85, 0b101001_1101, 0b101001_0010⟩,
   ⟨.data 0x86, 0b011001_1101, 0b011001_0010⟩,
   ⟨.data 0x87, 0b111000_1101, 0b000111_0010⟩,
   ⟨.data 0x88, 0b111001_0010, 0b000110_1101⟩,
   ⟨.data 0x89, 0b100101_1101, 0b100101_0010⟩,
   ⟨.data 0x8A, 0b010101_1101, 0b010101_0010⟩,
   ⟨.data 0x8B, 0b110100_1101, 0b110100_0010⟩,
   ⟨.data 0x8C, 0b001101_1101, 0b001101_0010⟩,
   ⟨.data 0x8D, 0b101100_1101, 0b101100_0010⟩,
   ⟨.data 0x8E, 0b011100_1101, 0b011100_0010⟩,
   ⟨.data 0x8F, 0b010111_0010, 0b101000_1101⟩,
   ⟨.data 0x90, 0b011011_0010, 0b100100_1101⟩,
   ⟨.data 0x91, 0b100011_1101, 0b100011_0010⟩,
   ⟨.data 0x92, 0b010011_1101, 0b010011_0010⟩,
   ⟨.data 0x93, 0b110010_1101, 0b110010_0010⟩,
   ⟨.data 0x94, 0b001011_1101, 0b001011_0010⟩,
   ⟨.data 0x95, 0b101010_1101, 0b101010_0010⟩,
   ⟨.data 0x96, 0b011010_1101, 0b011010_0010⟩,
   ⟨.data 0x97, 0b111010_0010, 0b000101_1101⟩,
   ⟨.data 0x98, 0b110011_0010, 0b001100_1101⟩,
   ⟨.data 0x99, 0b100110_1101, 0b100110_0010⟩,
   ⟨.data 0x9A, 0b010110_1101, 0b010110_0010⟩,
   ⟨.data 0x9B, 0b110110_0010, 0b001001_1101⟩,
   ⟨.data 0x9C, 0b001110_1101, 0b001110_0010⟩,
   ⟨.data 0x9D, 0b101110_0010, 0b010001_1101⟩,
   ⟨.data 0x9E, 0b011110_0010, 0b100001_1101⟩,
   ⟨.data 0x9F, 0b101011_0010, 0b010100_1101⟩]

/-- `D0.5` to `D31.5`. -/
def dataRows5 : List Row :=
  [⟨.data 0xA0, 0b100111_1010, 0b011000_1010⟩,
   ⟨.data 0xA1, 0b011101_1010, 0b100010_1010⟩,
   ⟨.data 0xA2, 0b101101_1010, 0b010010_1010⟩,
   ⟨.data 0xA3, 0b110001_1010, 0b110001_1010⟩,
   ⟨.data 0xA4, 0b110101_1010, 0b001010_1010⟩,
   ⟨.data 0xA5, 0b101001_1010, 0b101001_1010⟩,
   ⟨.data 0xA6, 0b011001_1010, 0b011001_1010⟩,
   ⟨.data 0xA7, 0b111000_1010, 0b000111_1010⟩,
   ⟨.data 0xA8, 0b111001_1010, 0b000110_1010⟩,
   ⟨.data 0xA9, 0b100101_1010, 0b100101_1010⟩,
   ⟨.data 0xAA, 0b010101_1010, 0b010101_1010⟩,
   ⟨.data 0xAB, 0b110100_1010, 0b110100_1010⟩,
   ⟨.data 0xAC, 0b001101_1010, 0b001101_1010⟩,
   ⟨.data 0xAD, 0b101100_1010, 0b101100_1010⟩,
   ⟨.data 0xAE, 0b011100_1010, 0b011100_1010⟩,
   ⟨.data 0xAF, 0b010111_1010, 0b101000_1010⟩,
   ⟨.data 0xB0, 0b011011_1010, 0b100100_1010⟩,
   ⟨.data 0xB1, 0b100011_1010, 0b100011_1010⟩,
   ⟨.data 0xB2, 0b010011_1010, 0b010011_1010⟩,
   ⟨.data 0xB3, 0b110010_1010, 0b110010_1010⟩,
   ⟨.data 0xB4, 0b001011_1010, 0b001011_1010⟩,
   ⟨.data 0xB5, 0b101010_1010, 0b101010_1010⟩,
   ⟨.data 0xB6, 0b011010_1010, 0b011010_1010⟩,
   ⟨.data 0xB7, 0b111010_1010, 0b000101_1010⟩,
   ⟨.data 0xB8, 0b110011_1010, 0b001100_1010⟩,
   ⟨.data 0xB9, 0b100110_1010, 0b100110_1010⟩,
   ⟨.data 0xBA, 0b010110_1010, 0b010110_1010⟩,
   ⟨.data 0xBB, 0b110110_1010, 0b001001_1010⟩,
   ⟨.data 0xBC, 0b001110_1010, 0b001110_1010⟩,
   ⟨.data 0xBD, 0b101110_1010, 0b010001_1010⟩,
   ⟨.data 0xBE, 0b011110_1010, 0b100001_1010⟩,
   ⟨.data 0xBF, 0b101011_1010, 0b010100_1010⟩]

/-- `D0.6` to `D31.6`. -/
def dataRows6 : List Row :=
  [⟨.data 0xC0, 0b100111_0110, 0b011000_0110⟩,
   ⟨.data 0xC1, 0b011101_0110, 0b100010_0110⟩,
   ⟨.data 0xC2, 0b101101_0110, 0b010010_0110⟩,
   ⟨.data 0xC3, 0b110001_0110, 0b110001_0110⟩,
   ⟨.data 0xC4, 0b110101_0110, 0b001010_0110⟩,
   ⟨.data 0xC5, 0b101001_0110, 0b101001_0110⟩,
   ⟨.data 0xC6, 0b011001_0110, 0b011001_0110⟩,
   ⟨.data 0xC7, 0b111000_0110, 0b000111_0110⟩,
   ⟨.data 0xC8, 0b111001_0110, 0b000110_0110⟩,
   ⟨.data 0xC9, 0b100101_0110, 0b100101_0110⟩,
   ⟨.data 0xCA, 0b010101_0110, 0b010101_0110⟩,
   ⟨.data 0xCB, 0b110100_0110, 0b110100_0110⟩,
   ⟨.data 0xCC, 0b001101_0110, 0b001101_0110⟩,
   ⟨.data 0xCD, 0b101100_0110, 0b101100_0110⟩,
   ⟨.data 0xCE, 0b011100_0110, 0b011100_0110⟩,
   ⟨.data 0xCF, 0b010111_0110, 0b101000_0110⟩,
   ⟨.data 0xD0, 0b011011_0110, 0b100100_0110⟩,
   ⟨.data 0xD1, 0b100011_0110, 0b100011_0110⟩,
   ⟨.data 0xD2, 0b010011_0110, 0b010011_0110⟩,
   ⟨.data 0xD3, 0b110010_0110, 0b110010_0110⟩,
   ⟨.data 0xD4, 0b001011_0110, 0b001011_0110⟩,
   ⟨.data 0xD5, 0b101010_0110, 0b101010_0110⟩,
   ⟨.data 0xD6, 0b011010_0110, 0b011010_0110⟩,
   ⟨.data 0xD7, 0b111010_0110, 0b000101_0110⟩,
   ⟨.data 0xD8, 0b110011_0110, 0b001100_0110⟩,
   ⟨.data 0xD9, 0b100110_0110, 0b100110_0110⟩,
   ⟨.data 0xDA, 0b010110_0110, 0b010110_0110⟩,
   ⟨.data 0xDB, 0b110110_0110, 0b001001_0110⟩,
   ⟨.data 0xDC, 0b001110_0110, 0b001110_0110⟩,
   ⟨.data 0xDD, 0b101110_0110, 0b010001_0110⟩,
   ⟨.data 0xDE, 0b011110_0110, 0b100001_0110⟩,
   ⟨.data 0xDF, 0b101011_0110, 0b010100_0110⟩]

/-- `D0.7` to `D31.7`. -/
def dataRows7 : List Row :=
  [⟨.data 0xE0, 0b100111_0001, 0b011000_1110⟩,
   ⟨.data 0xE1, 0b011101_0001, 0b100010_1110⟩,
   ⟨.data 0xE2, 0b101101_0001, 0b010010_1110⟩,
   ⟨.data 0xE3, 0b110001_1110, 0b110001_0001⟩,
   ⟨.data 0xE4, 0b110101_0001, 0b001010_1110⟩,
   ⟨.data 0xE5, 0b101001_1110, 0b101001_0001⟩,
   ⟨.data 0xE6, 0b011001_1110, 0b011001_0001⟩,
   ⟨.data 0xE7, 0b111000_1110, 0b000111_0001⟩,
   ⟨.data 0xE8, 0b111001_0001, 0b000110_1110⟩,
   ⟨.data 0xE9, 0b100101_1110, 0b100101_0001⟩,
   ⟨.data 0xEA, 0b010101_1110, 0b010101_0001⟩,
   ⟨.data 0xEB, 0b110100_1110, 0b110100_1000⟩,
   ⟨.data 0xEC, 0b001101_1110, 0b001101_0001⟩,
   ⟨.data 0xED, 0b101100_1110, 0b101100_1000⟩,
   ⟨.data 0xEE, 0b011100_1110, 0b011100_1000⟩,
   ⟨.data 0xEF, 0b010111_0001, 0b101000_1110⟩,
   ⟨.data 0xF0, 0b011011_0001, 0b100100_1110⟩,
   ⟨.data 0xF1, 0b100011_0111, 0b100011_0001⟩,
   ⟨.data 0xF2, 0b010011_0111, 0b010011_0001⟩,
   ⟨.data 0xF3, 0b110010_1110, 0b110010_0001⟩,
   ⟨.data 0xF4, 0b001011_0111, 0b001011_0001⟩,
   ⟨.data 0xF5, 0b101010_1110, 0b101010_0001⟩,
   ⟨.data 0xF6, 0b011010_1110, 0b011010_0001⟩,
   ⟨.data 0xF7, 0b111010_0001, 0b000101_1110⟩,
   ⟨.data 0xF8, 0b110011_0001, 0b001100_1110⟩,
   ⟨.data 0xF9, 0b100110_1110, 0b100110_0001⟩,
   ⟨.data 0xFA, 0b010110_1110, 0b010110_0001⟩,
   ⟨.data 0xFB, 0b110110_0001, 0b001001_1110⟩,
   ⟨.data 0xFC, 0b001110_1110, 0b001110_0001⟩,
   ⟨.data 0xFD, 0b101110_0001, 0b010001_1110⟩,
   ⟨.data 0xFE, 0b011110_0001, 0b100001_1110⟩,
   ⟨.data 0xFF, 0b101011_0001, 0b010100_1110⟩]

/-- `K28.0` to `K28.7`, then `K23.7`, `K27.7`, `K29.7` and `K30.7`. -/
def controlRows : List Row :=
  [⟨.k 0x1C, 0b001111_0100, 0b110000_1011⟩,
   ⟨.k 0x3C, 0b001111_1001, 0b110000_0110⟩,
   ⟨.k 0x5C, 0b001111_0101, 0b110000_1010⟩,
   ⟨.k 0x7C, 0b001111_0011, 0b110000_1100⟩,
   ⟨.k 0x9C, 0b001111_0010, 0b110000_1101⟩,
   ⟨.k 0xBC, 0b001111_1010, 0b110000_0101⟩,
   ⟨.k 0xDC, 0b001111_0110, 0b110000_1001⟩,
   ⟨.k 0xFC, 0b001111_1000, 0b110000_0111⟩,
   ⟨.k 0xF7, 0b111010_1000, 0b000101_0111⟩,
   ⟨.k 0xFB, 0b110110_1000, 0b001001_0111⟩,
   ⟨.k 0xFD, 0b101110_1000, 0b010001_0111⟩,
   ⟨.k 0xFE, 0b011110_1000, 0b100001_0111⟩]

/-- The rows of the standard, data characters first. -/
def standardRows : List Row :=
  dataRows0 ++ dataRows1 ++ dataRows2 ++ dataRows3 ++ dataRows4 ++ dataRows5 ++ dataRows6 ++
    dataRows7 ++ controlRows

/-! ### Soundness -/

/-- Every word of the standard has ten bits and may follow the disparity it is listed for. -/
theorem standardRows_sound : ∀ r ∈ standardRows, r.Sound := by decide +kernel

/-- The standard lists the data characters by value, then the control characters. -/
theorem standardRows_symbols : standardRows.map Row.symbol =
    (List.range 256).map (fun n => .data (BitVec.ofNat 8 n)) ++ Symbol.controlValues.map .k := by
  decide +kernel

/-- The standard lists no symbol twice. -/
theorem standardRows_nodup : (standardRows.map Row.symbol).Nodup := by
  rw [standardRows_symbols, List.nodup_append]
  refine ⟨?_, by decide, ?_⟩
  · refine List.pairwise_map.2 (List.Pairwise.imp_of_mem ?_ List.nodup_range)
    intro a b ha hb hab h
    have h' : BitVec.ofNat 8 a = BitVec.ofNat 8 b := congrArg Symbol.value h
    have := congrArg BitVec.toNat h'
    simp only [BitVec.toNat_ofNat, List.mem_range] at this ha hb
    omega
  · intro a ha b hb
    obtain ⟨n, -, rfl⟩ := List.mem_map.1 ha
    obtain ⟨v, -, rfl⟩ := List.mem_map.1 hb
    simp [Symbol.data, Symbol.k]

/-- The table of the standard. -/
def Table.standard : Table := .ofSoundRows standardRows standardRows_sound standardRows_nodup

theorem Table.ofRows_standardRows : ofRows standardRows = .ok standard := ofRows_ofSoundRows _ _

end LineCode
