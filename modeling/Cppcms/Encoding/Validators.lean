import Cppcms.Encoding.Utf8

/-!
# Encoding names and validators

`src/encoding.cpp` keeps a table from encoding names to testers (`validators_set`).  Names are
compared by their letters and digits only, ignoring case.  An encoding is *ASCII compatible* if the
table has a tester for it.

Every single-byte tester of `private/encoding_validators.h` checks each octet on its own against a
list of unassigned octets, so each is `singleByteValid` applied to its own list.  Conversion between
encodings is done by a system library, represented by `Conv`.
-/

namespace Cppcms

namespace Encoding

/-! ## Single-byte testers -/

/-- Tabulation, line feed and carriage return are accepted by every tester. -/
def isControlSpace (c : UInt8) : Bool := c == 0x09 || c == 0xA || c == 0xD

/-- A tester that refuses the octets for which `bad` holds, white space excepted. -/
def singleByteValid (bad : UInt8 → Bool) (s : Bytes) : Bool :=
  s.all fun c => isControlSpace c || !bad c

/-- The control characters refused by the testers of the `iso_8859` family. -/
def isoControl (c : UInt8) : Bool := c < 0x20 || (0x7F ≤ c && c < 0xA0)

/-- The control characters refused by the testers of the `windows` family and by `koi8_valid`. -/
def windowsControl (c : UInt8) : Bool := c < 0x20 || 0x7F == c

def asciiValid : Bytes → Bool := singleByteValid fun c => c < 0x20 || 0x7E < c

def iso_8859_1_2_4_5_9_10_13_14_15_16_valid : Bytes → Bool := singleByteValid isoControl

def iso_8859_3_valid : Bytes → Bool :=
  singleByteValid fun c => isoControl c || [0xA5, 0xAE, 0xBE, 0xC3, 0xD0, 0xE3, 0xF0].contains c

def iso_8859_6_valid : Bytes → Bool :=
  singleByteValid fun c => isoControl c || (0xA1 ≤ c && c ≤ 0xA3) || (0xA5 ≤ c && c ≤ 0xAB) ||
    (0xAE ≤ c && c ≤ 0xBA) || (0xBC ≤ c && c ≤ 0xBE) || 0xC0 == c || (0xDB ≤ c && c ≤ 0xDF) ||
    (0xF3 ≤ c && c ≤ 0xFF)

def iso_8859_7_valid : Bytes → Bool :=
  singleByteValid fun c => isoControl c || [0xAE, 0xD2, 0xFF].contains c

def iso_8859_8_valid : Bytes → Bool :=
  singleByteValid fun c => isoControl c || [0xA1, 0xFB, 0xFC, 0xFF].contains c ||
    (0xBF ≤ c && c ≤ 0xDE)

def iso_8859_11_valid : Bytes → Bool :=
  singleByteValid fun c => isoControl c ||
    [0xDB, 0xDC, 0xDD, 0xDE, 0xFC, 0xFD, 0xFE, 0xFF].contains c

def windows_1250_valid : Bytes → Bool :=
  singleByteValid fun c => windowsControl c || [0x81, 0x83, 0x88, 0x90, 0x98].contains c

def windows_1251_valid : Bytes → Bool := singleByteValid fun c => windowsControl c || c == 152

def windows_1252_valid : Bytes → Bool :=
  singleByteValid fun c => windowsControl c || [0x81, 0x8D, 0x8F, 0x90, 0x9D].contains c

def windows_1253_valid : Bytes → Bool :=
  singleByteValid fun c => windowsControl c ||
    [0x81, 0x88, 0x8A, 0x8C, 0x8D, 0x8E, 0x8F, 0x90, 0x98, 0x9A, 0x9C, 0x9D, 0x9E, 0x9F, 0xAA, 0xD2,
      0xFF].contains c

def windows_1255_valid : Bytes → Bool :=
  singleByteValid fun c => windowsControl c ||
    [0x81, 0x8A, 0x8C, 0x8D, 0x8E, 0x8F, 0x90, 0x9A, 0x9C, 0x9D, 0x9E, 0x9F, 0xD9, 0xDA, 0xDB, 0xDC,
      0xDD, 0xDE, 0xDF, 0xCA, 0xFB, 0xFC, 0xFF].contains c

def windows_1256_valid : Bytes → Bool := singleByteValid windowsControl

def windows_1257_valid : Bytes → Bool :=
  singleByteValid fun c => windowsControl c ||
    [0x81, 0x83, 0x88, 0x8A, 0x8C, 0x90, 0x98, 0x9A, 0x9C, 0x9F, 0xA1, 0xA5].contains c

def windows_1258_valid : Bytes → Bool :=
  singleByteValid fun c => windowsControl c ||
    [0x81, 0x8A, 0x8D, 0x8E, 0x8F, 0x90, 0x9A, 0x9D, 0x9E].contains c

def koi8_valid : Bytes → Bool := singleByteValid windowsControl

/-- `utf8_valid` checks the text in HTML mode. -/
def utf8_valid : Bytes → Bool := Utf8.validate true

/-! ## The table of testers -/

/-- The characters of a name that take part in comparisons, as `encodings_comparator::next` yields
them: the digits, and the letters in lower case. -/
def nameChar (c : UInt8) : Option UInt8 :=
  if 0x30 ≤ c ∧ c ≤ 0x39 then some c
  else if 0x61 ≤ c ∧ c ≤ 0x7A then some c
  else if 0x41 ≤ c ∧ c ≤ 0x5A then some (c - 0x41 + 0x61)
  else none

/-- The sequence that `encodings_comparator` reads off a C string. -/
def nameKey (name : Bytes) : Bytes := (name.takeWhile (· ≠ 0)).filterMap nameChar

/-- `encodings_comparator`: neither name is less than the other exactly if the sequences are the
same. -/
def sameName (l r : Bytes) : Bool := nameKey l == nameKey r

/-- `predefined_` of `validators_set`. -/
def predefined : List (Bytes × (Bytes → Bool)) :=
  [ (bytes "latin1", iso_8859_1_2_4_5_9_10_13_14_15_16_valid),
    (bytes "iso88591", iso_8859_1_2_4_5_9_10_13_14_15_16_valid),
    (bytes "iso88592", iso_8859_1_2_4_5_9_10_13_14_15_16_valid),
    (bytes "iso88594", iso_8859_1_2_4_5_9_10_13_14_15_16_valid),
    (bytes "iso88595", iso_8859_1_2_4_5_9_10_13_14_15_16_valid),
    (bytes "iso88599", iso_8859_1_2_4_5_9_10_13_14_15_16_valid),
    (bytes "iso885910", iso_8859_1_2_4_5_9_10_13_14_15_16_valid),
    (bytes "iso885913", iso_8859_1_2_4_5_9_10_13_14_15_16_valid),
    (bytes "iso885914", iso_8859_1_2_4_5_9_10_13_14_15_16_valid),
    (bytes "iso885915", iso_8859_1_2_4_5_9_10_13_14_15_16_valid),
    (bytes "iso885916", iso_8859_1_2_4_5_9_10_13_14_15_16_valid),
    (bytes "iso88593", iso_8859_3_valid),
    (bytes "iso88596", iso_8859_6_valid),
    (bytes "iso88597", iso_8859_7_valid),
    (bytes "iso88598", iso_8859_8_valid),
    (bytes "iso885911", iso_8859_11_valid),
    (bytes "windows1250", windows_1250_valid),
    (bytes "windows1251", windows_1251_valid),
    (bytes "windows1252", windows_1252_valid),
    (bytes "windows1253", windows_1253_valid),
    (bytes "windows1255", windows_1255_valid),
    (bytes "windows1256", windows_1256_valid),
    (bytes "windows1257", windows_1257_valid),
    (bytes "windows1258", windows_1258_valid),
    (bytes "cp1250", windows_1250_valid),
    (bytes "cp1251", windows_1251_valid),
    (bytes "cp1252", windows_1252_valid),
    (bytes "cp1253", windows_1253_valid),
    (bytes "cp1255", windows_1255_valid),
    (bytes "cp1256", windows_1256_valid),
    (bytes "cp1257", windows_1257_valid),
    (bytes "cp1258", windows_1258_valid),
    (bytes "koi8r", koi8_valid),
    (bytes "koi8u", koi8_valid),
    (bytes "utf8", utf8_valid),
    (bytes "usascii", asciiValid),
    (bytes "ascii", asciiValid) ]

/-- `validators_set::get`. -/
def getTester (name : Bytes) : Option (Bytes → Bool) :=
  (predefined.find? fun p => sameName p.1 name).map Prod.snd

/-- `is_ascii_compatible`: there is a tester for the encoding. -/
def isAsciiCompatible (encoding : Bytes) : Bool := (getTester encoding).isSome

/-- `is_utf8`. -/
def isUtf8 (encoding : Bytes) : Bool := sameName encoding (bytes "utf8")

/-- The conversion functions of the localization library (`booster::locale::conv`), which call the
system's converters; `none` stands for an exception. -/
structure Conv where
  /-- `to_utf<char>(text, charset, stop)` -/
  toUtf (charset text : Bytes) : Option Bytes
  /-- `to_utf<char>(text, charset, skip)` -/
  toUtfSkip (charset text : Bytes) : Option Bytes
  /-- `from_utf<char>(text, charset, stop)` -/
  fromUtf (charset text : Bytes) : Option Bytes
  /-- `between(text, target, source, stop)` -/
  between (text target source : Bytes) : Option Bytes
  /-- `between(text, target, source, skip)` -/
  betweenSkip (text target source : Bytes) : Option Bytes

/-- `encoding::valid`. -/
def valid (conv : Conv) (encoding s : Bytes) : Bool :=
  match getTester encoding with
  | some tester => tester s
  | none =>
    match conv.between s (bytes "UTF-8") encoding with
    | some utf8String => utf8_valid utf8String
    | none => false

/-- `validate_or_filter_single_byte_charset`: octet by octet, refused ones are replaced. -/
def validateOrFilterSingleByteCharset (tester : Bytes → Bool) (s : Bytes) (repl : UInt8) :
    Option Bytes :=
  if tester s then none
  else some (s.flatMap fun c => if tester [c] then [c] else Utf8.replacement repl)

/-- The outcome of `validate_or_filter`: the text is valid, or another text was written to the
output, or a conversion failed with an exception. -/
inductive FilterResult where
  | valid
  | filtered (output : Bytes)
  | exception
  deriving DecidableEq, Repr

/-- The outcome of the two filters that return `false` after writing the output. -/
def FilterResult.ofOption : Option Bytes → FilterResult
  | none => valid
  | some output => filtered output

/-- `validate_or_filter`. -/
def validateOrFilter (conv : Conv) (encoding s : Bytes) (replace : UInt8) : FilterResult :=
  if isUtf8 encoding then .ofOption (Utf8.validateOrFilterUtf8 s replace)
  else
    match getTester encoding with
    | some tester => .ofOption (validateOrFilterSingleByteCharset tester s replace)
    | none =>
      if valid conv encoding s then .valid
      else
        match conv.betweenSkip s (bytes "UTF-8") encoding with
        | none => .exception
        | some utf8String =>
          let tmpOut := (Utf8.validateOrFilterUtf8 utf8String 0).getD utf8String
          match conv.betweenSkip tmpOut encoding (bytes "UTF-8") with
          | none => .exception
          | some output => .filtered output

/-- UTF-16LE to UTF-8, for ASCII characters. -/
def utf16leToUtf : Bytes → Option Bytes
  | [] => some []
  | [_] => none
  | c :: d :: s => if c < 128 ∧ d = 0 then (utf16leToUtf s).map (c :: ·) else none

/-- Conversions that know UTF-8 and UTF-16LE, for ASCII characters. -/
def utf16leConv : Conv where
  toUtf charset text := if isUtf8 charset then some text else utf16leToUtf text
  toUtfSkip charset text := if isUtf8 charset then some text else utf16leToUtf text
  fromUtf charset text :=
    if isUtf8 charset then some text else some (text.flatMap fun c => [c, 0])
  between text target source :=
    if isUtf8 target then
      if isUtf8 source then some text else utf16leToUtf text
    else some (text.flatMap fun c => [c, 0])
  betweenSkip text target source :=
    if isUtf8 target then
      if isUtf8 source then some text else utf16leToUtf text
    else some (text.flatMap fun c => [c, 0])

/-! ## UTF-8 in the table -/

variable {encoding : Bytes}

/-- The tester of UTF-8 is the one found under every spelling of its name. -/
lemma getTester_of_isUtf8 (h : isUtf8 encoding = true) :
    getTester encoding = some utf8_valid := by
  have hkey : nameKey encoding = bytes "utf8" := by
    have : nameKey (bytes "utf8") = bytes "utf8" := by decide
    rw [isUtf8, sameName, beq_iff_eq, this] at h
    exact h
  have hfind : ∀ p : Bytes × (Bytes → Bool), sameName p.1 encoding =
      (nameKey p.1 == bytes "utf8") := fun p => by rw [sameName, hkey]
  have hlist : predefined.find? (fun p => nameKey p.1 == bytes "utf8") =
      some (bytes "utf8", utf8_valid) := rfl
  simp only [getTester, hfind, hlist, Option.map_some]

/-- Under every spelling of its name, UTF-8 is ASCII compatible. -/
lemma isAsciiCompatible_of_isUtf8 (h : isUtf8 encoding = true) :
    isAsciiCompatible encoding = true := by
  simp [isAsciiCompatible, getTester_of_isUtf8 h]

/-- For UTF-8 the test is `utf8::validate` in HTML mode. -/
lemma valid_of_isUtf8 (conv : Conv) (h : isUtf8 encoding = true) (s : Bytes) :
    valid conv encoding s = Utf8.validate true s := by
  simp [valid, getTester_of_isUtf8 h, utf8_valid]

/-- For UTF-8 the filter is `validate_or_filter_utf8`. -/
lemma validateOrFilter_of_isUtf8 (conv : Conv) (h : isUtf8 encoding = true) (s : Bytes)
    (replace : UInt8) :
    validateOrFilter conv encoding s replace =
      .ofOption (Utf8.validateOrFilterUtf8 s replace) := by
  simp [validateOrFilter, h]

end Encoding

end Cppcms
