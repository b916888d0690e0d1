import BuildAlign.CodePages
import BuildAlign.XmlCharacters

/-! # Encodings of XML documents

A document is kept in UTF-8, but it is read in the encoding that it declares.  Some encodings are
known by their exact names, in any case of the letters.  Further character sets go by many names, in
which hyphens and underscores between words count the same.  A character set can only be read when
all its characters have one byte and those that markup is made of have the bytes of ASCII.  UTF-16
is known by its first two bytes. -/
namespace BuildAlign

/-- Character sets that are known by name, but cannot be listed. -/
inductive UnlistedSet | domainNames | punycode | undefined
deriving DecidableEq, Repr

inductive EncodingFault
  | unknown (name : String)
  /-- The name is that of a code for bytes. -/
  | noCharacters (name : String)
  | severalBytes
  | unlisted (set : UnlistedSet) (name : String)
deriving DecidableEq, Repr

def EncodingFault.message : EncodingFault → String
  | unknown name => s!"unknown encoding: {name}"
  | noCharacters name =>
    s!"'{name}' is not a text encoding; use codecs.decode() to handle arbitrary codecs"
  | severalBytes => "multi-byte encodings are not supported"
  | unlisted .domainNames name =>
    s!"decoding with '{name}' codec failed (UnicodeError: Unsupported error handling replace)"
  | unlisted .punycode _ =>
    "'ascii' codec can't decode byte 0x80 in position 82: ordinal not in range(128)"
  | unlisted .undefined name =>
    s!"decoding with '{name}' codec failed (UnicodeError: undefined encoding)"

/-- Why a text is no XML document. -/
inductive XmlFault
  | malformed
  | encoding (cause : EncodingFault)
deriving DecidableEq, Repr

def XmlFault.message : XmlFault → String
  | malformed => "malformed XML document"
  | encoding cause => cause.message

inductive XmlEncoding
  | utf8
  /-- ISO 8859-1 by its exact name, which has an alphabet of its own. -/
  | latin1
  | upperHalf (characters : String)
  /-- Only ASCII, and of that not the `missing` characters. -/
  | ascii (missing : List Char)
  /-- Two bytes a unit, and one or two units a character. -/
  | utf16 (lowByteFirst : Bool)
  /-- Markup is written with other bytes than those of the declaration. -/
  | contradictory
deriving DecidableEq, Repr

namespace XmlEncoding

def alphabet : XmlEncoding → Alphabet
  | latin1 | utf16 _ => .latin1
  | _ => .unicode

/-- The encodings that are known by their exact names in a document that looks like UTF-8. -/
def exact : List (String × XmlEncoding) :=
  [("utf-8", utf8), ("iso-8859-1", latin1), ("us-ascii", ascii []), ("utf-16", contradictory),
   ("utf-16be", contradictory), ("utf-16le", contradictory)]

/-- The encoding that the first two bytes of a text suggest: one of them is 0 where units have
two. -/
def suggested (text : String) : XmlEncoding :=
  let bytes := text.toUTF8
  if bytes[0]? = some 0 then utf16 false
  else if bytes[1]? = some 0 then utf16 true
  else utf8

/-- Character sets that are read in one way, with their names and with further ones. -/
structure Family where
  names : List String
  aliases : List String
  reading : String → Except EncodingFault XmlEncoding

def ofPage (page : CodePage) : Family :=
  ⟨page.names, page.aliases, fun _ => .ok (upperHalf page.upper)⟩

def asciiFamily : Family where
  names := ["ascii", "iso2022_jp", "iso2022_jp_1", "iso2022_jp_2", "iso2022_jp_2004",
    "iso2022_jp_3", "iso2022_jp_ext", "utf_8", "utf_8_sig"]
  aliases := ["646", "ansi_x3.4_1968", "ansi_x3.4_1986", "ansi_x3_4_1968", "cp367", "cp65001",
    "csascii", "csiso2022jp", "ibm367", "iso2022jp", "iso2022jp_1", "iso2022jp_2", "iso2022jp_2004",
    "iso2022jp_3", "iso2022jp_ext", "iso646_us", "iso_2022_jp", "iso_2022_jp_1", "iso_2022_jp_2",
    "iso_2022_jp_2004", "iso_2022_jp_3", "iso_2022_jp_ext", "iso_646.irv_1991", "iso_ir_6", "u8",
    "us", "us_ascii", "utf", "utf8", "utf8_ucs2", "utf8_ucs4"]
  reading _ := .ok (ascii [])

/-- A character set in which the tilde begins an escape. -/
def tildeFamily : Family where
  names := ["hz"]
  aliases := ["hz_gb", "hz_gb_2312", "hzgb"]
  reading _ := .ok (ascii ['~'])

def contradictoryFamily : Family where
  names := ["cp037", "cp1026", "cp1140", "cp273", "cp424", "cp500", "cp864", "cp875", "mac_arabic",
    "mac_farsi"]
  aliases := ["037", "1026", "1140", "273", "424", "500", "864", "csibm037", "csibm1026",
    "csibm273", "csibm424", "csibm500", "csibm864", "ebcdic_cp_be", "ebcdic_cp_ca", "ebcdic_cp_ch",
    "ebcdic_cp_he", "ebcdic_cp_nl", "ebcdic_cp_us", "ebcdic_cp_wt", "ibm037", "ibm039", "ibm1026",
    "ibm1140", "ibm273", "ibm424", "ibm500", "ibm864"]
  reading _ := .ok contradictory

def severalBytesFamily : Family where
  names := ["big5", "big5hkscs", "cp932", "cp949", "cp950", "euc_jis_2004", "euc_jisx0213",
    "euc_jp", "euc_kr", "gb18030", "gb2312", "gbk", "iso2022_kr", "johab", "shift_jis",
    "shift_jis_2004", "shift_jisx0213", "utf_16", "utf_16_be", "utf_16_le", "utf_32", "utf_32_be",
    "utf_32_le", "utf_7"]
  aliases := ["932", "936", "949", "950", "big5_hkscs", "big5_tw", "chinese", "cp1361", "cp936",
    "csbig5", "csiso2022kr", "csiso58gb231280", "csshiftjis", "euc_cn", "euc_jis2004", "euccn",
    "eucgb2312_cn", "eucjis2004", "eucjisx0213", "eucjp", "euckr", "gb18030_2000", "gb2312_1980",
    "gb2312_80", "hkscs", "iso2022kr", "iso_2022_kr", "iso_ir_58", "jisx0213", "korean",
    "ks_c_5601", "ks_c_5601_1987", "ks_x_1001", "ksc5601", "ksx1001", "ms1361", "ms932", "ms936",
    "ms949", "ms950", "ms_kanji", "mskanji", "s_jis", "s_jis_2004", "s_jisx0213", "shiftjis",
    "shiftjis2004", "shiftjisx0213", "sjis", "sjis_2004", "sjisx0213", "u16", "u32", "u7", "u_jis",
    "uhc", "ujis", "unicode_1_1_utf_7", "unicodebigunmarked", "unicodelittleunmarked", "utf16",
    "utf32", "utf7", "utf_16be", "utf_16le", "utf_32be", "utf_32le", "x_mac_japanese",
    "x_mac_korean", "x_mac_simp_chinese", "x_mac_trad_chinese"]
  reading _ := .error .severalBytes

def byteCodeFamily : Family where
  names := ["base64_codec", "bz2_codec", "hex_codec", "quopri_codec", "rot_13", "uu_codec",
    "zlib_codec"]
  aliases := ["base64", "base_64", "bz2", "hex", "quopri", "quoted_printable", "quotedprintable",
    "rot13", "uu", "zip", "zlib"]
  reading name := .error (.noCharacters name)

def unlistedFamily (set : UnlistedSet) (name : String) : Family :=
  ⟨[name], [], fun name => .error (.unlisted set name)⟩

def families : List Family :=
  [asciiFamily, tildeFamily, contradictoryFamily, severalBytesFamily, byteCodeFamily,
    unlistedFamily .domainNames "idna", unlistedFamily .punycode "punycode",
    unlistedFamily .undefined "undefined"] ++ CodePage.all.map ofPage

/-- A name in small letters, with one underscore between its words and none around them. -/
def canonical (name : String) : String :=
  let words := (name.toList.map fun c => if c = '-' then '_' else c.toLower).splitBy fun a b =>
    (a = '_') = (b = '_')
  "_".intercalate ((words.filter fun w => w.head? ≠ some '_').map String.ofList)

/-- The family that a canonical name belongs to.  A point counts as an underscore in further names,
and does not occur in the first ones. -/
def family? (name : String) : Option Family :=
  let undotted := String.ofList (name.toList.map fun c => if c = '.' then '_' else c)
  families.find? (fun f => f.aliases.contains name || f.aliases.contains undotted) <|>
    families.find? (·.names.contains name)

/-- The encoding of a name. -/
def ofName (name : String) : Except EncodingFault XmlEncoding :=
  match exact.find? fun (n, _) => n.toList = name.toList.map Char.toLower with
  | some (_, encoding) => .ok encoding
  | none =>
    match family? (canonical name) with
    | some f => f.reading name
    | none => .error (.unknown name)

/-- The encoding that a document is in which suggests one and has the name of one. -/
def declared (suggestion : XmlEncoding) (name : String) : Except EncodingFault XmlEncoding :=
  match suggestion with
  | utf16 lowByteFirst =>
    let names := ["utf-16", if lowByteFirst then "utf-16le" else "utf-16be"]
    if names.any fun n => n.toList = name.toList.map Char.toLower then .ok suggestion
    else (ofName name).map fun _ => contradictory
  | _ => ofName name

/-- Stands for bytes that make no character; no document may hold it. -/
def noCharacter : Char := '\uFFFF'

/-- The units of two bytes that bytes make. -/
def unitsOf (lowByteFirst : Bool) : List UInt8 → List Nat
  | first :: second :: rest =>
    let unit := if lowByteFirst then second.toNat * 256 + first.toNat
      else first.toNat * 256 + second.toNat
    unit :: unitsOf lowByteFirst rest
  | [_] => [noCharacter.toNat]
  | [] => []

/-- The characters that units stand for; the first unit of two is a high surrogate. -/
def unitsText : List Nat → List Char
  | [] => []
  | unit :: rest =>
    if unit < 0xD800 || 0xE000 ≤ unit then Char.ofNat unit :: unitsText rest
    else match rest with
      | low :: rest =>
        if unit < 0xDC00 && 0xDC00 ≤ low && low < 0xE000 then
          Char.ofNat (0x10000 + (unit - 0xD800) * 0x400 + (low - 0xDC00)) :: unitsText rest
        else noCharacter :: unitsText (low :: rest)
      | [] => [noCharacter]
termination_by units => units.length

/-- What a byte stands for in an encoding with such an upper half. -/
def pageChar (upper : Array Char) (byte : UInt8) : Char :=
  if byte < 0x80 then Char.ofNat byte.toNat else upper.getD (byte.toNat - 0x80) noCharacter

/-- The text that the bytes of a text in UTF-8 stand for in an encoding. -/
def reread? (encoding : XmlEncoding) (text : String) : Option (List Char) :=
  match encoding with
  | utf8 => some text.toList
  | latin1 => some (text.toUTF8.toList.map fun byte => Char.ofNat byte.toNat)
  | upperHalf characters =>
    let upper := characters.toList.toArray
    some (text.toUTF8.toList.map (pageChar upper))
  | ascii missing =>
    if text.toList.all fun c =>
      c.toNat < 0x80 && !missing.contains c then some text.toList else none
  | utf16 lowByteFirst => some (unitsText (unitsOf lowByteFirst text.toUTF8.toList))
  | contradictory => none

end XmlEncoding
end BuildAlign
