import TraitFactory.Failure

/-!
# Encodings

Texts as bytes and bytes as texts, in some ways of writing the one as the other. What cannot be
written, or read, is refused, left out, or replaced, as a rule for such errors says. Main
statement: in the encoding of the first 256 characters, bytes read as a text are written back as
they were.
-/

namespace TraitFactory

namespace Cause

def lookupFailure (message : String) : Cause := .other "LookupError" message

def unknownEncoding (name : String) : Cause := .lookupFailure ("unknown encoding: " ++ name)

def noTextEncoding (name : String) : Cause :=
  .lookupFailure ("'" ++ name
    ++ "' is not a text encoding; use codecs.encode() to handle arbitrary codecs")

def unknownHandler (name : String) : Cause :=
  .lookupFailure ("unknown error handler name '" ++ name ++ "'")

end Cause

namespace Text

/-- The order of the bytes of a unit. -/
inductive ByteOrder where
  | little
  | big
  deriving DecidableEq, Repr

/-- **A way of writing texts as bytes.** One of units of more than a byte tells the order of the
bytes by a mark at the start unless it is agreed on. -/
inductive Encoding where
  | ascii
  | latin
  | utf8 (marked : Bool)
  | utf16 (order : Option ByteOrder)
  | utf32 (order : Option ByteOrder)
  deriving DecidableEq, Repr

namespace Encoding

/-- The names of encodings, in small letters and with underscores. -/
def names : List (Encoding × List String) :=
  [(.utf8 false, ["utf_8", "utf8", "u8", "utf", "utf8_ucs2", "utf8_ucs4", "cp65001"]),
    (.utf8 true, ["utf_8_sig", "utf_8_sig"]),
    (.ascii, ["ascii", "us_ascii", "646", "ansi_x3.4_1968", "ansi_x3_4_1968", "ansi_x3.4_1986",
      "cp367", "csascii", "ibm367", "iso646_us", "iso_646.irv_1991", "iso_ir_6", "us"]),
    (.latin, ["latin_1", "latin1", "latin", "l1", "iso_8859_1", "iso8859_1", "iso8859", "8859",
      "cp819", "csisolatin1", "ibm819", "iso_8859_1_1987", "iso_ir_100"]),
    (.utf16 none, ["utf_16", "utf16", "u16"]),
    (.utf16 (some .little), ["utf_16_le", "utf_16le", "utf16_le", "unicodelittleunmarked"]),
    (.utf16 (some .big), ["utf_16_be", "utf_16be", "utf16_be", "unicodebigunmarked"]),
    (.utf32 none, ["utf_32", "utf32", "u32"]),
    (.utf32 (some .little), ["utf_32_le", "utf_32le"]),
    (.utf32 (some .big), ["utf_32_be", "utf_32be"])]

/-- Ways of writing bytes as other bytes. -/
def byteCodings : List String :=
  ["base64", "base_64", "base64_codec", "bz2", "bz2_codec", "hex", "hex_codec", "quopri",
    "quopri_codec", "quoted_printable", "quotedprintable", "rot13", "rot_13", "uu", "uu_codec",
    "zip", "zlib", "zlib_codec"]

/-- A name as encodings are looked up by it: every run of other characters than letters and digits
is an underscore. -/
def normalized (s : String) : String :=
  s.map fun c => if c = ' ' || c = '-' then '_' else c.toLower

/-- **The encoding of a name.** -/
def find (name : String) : Except Cause Encoding :=
  let wanted := normalized name
  match names.find? fun e => e.2.contains wanted with
  | some e => .ok e.1
  | none =>
    if byteCodings.contains wanted then .error (.noTextEncoding name)
    else .error (.unknownEncoding name)

/-! ## Writing -/

def byte (n : Nat) : UInt8 := UInt8.ofNat n

/-- The bytes of a unit of so many bytes. -/
def unitBytes (order : ByteOrder) (size n : Nat) : List UInt8 :=
  let little := (List.range size).map fun i => byte (n / Nat.pow 256 i % 256)
  match order with
  | .little => little
  | .big => little.reverse

/-- The bytes of a code point by the pattern of UTF-8, which halves have as well. -/
def patternBytes (n : Nat) : List UInt8 :=
  let rest := fun (i : Nat) => byte (0x80 + n / Nat.pow 64 i % 64)
  if n < 0x80 then [byte n]
  else if n < 0x800 then [byte (0xC0 + n / 64), rest 0]
  else if n < 0x10000 then [byte (0xE0 + n / Nat.pow 64 2), rest 1, rest 0]
  else [byte (0xF0 + n / Nat.pow 64 3), rest 2, rest 1, rest 0]

def pairBytes (order : ByteOrder) (n : Nat) : List UInt8 :=
  if n < 0x10000 then unitBytes order 2 n
  else
    unitBytes order 2 (0xD800 + (n - 0x10000) / 0x400)
      ++ unitBytes order 2 (0xDC00 + (n - 0x10000) % 0x400)

/-- The bytes of a code point, if halves are written like characters. -/
def rawBytes (e : Encoding) (n : Nat) : List UInt8 :=
  match e with
  | .ascii | .latin => [byte n]
  | .utf8 _ => patternBytes n
  | .utf16 order => pairBytes (order.getD .little) n
  | .utf32 order => unitBytes (order.getD .little) 4 n

/-- Whether a code can be written. -/
def covers (e : Encoding) (c : Code) : Bool :=
  match e with
  | .ascii => c.toNat < 128
  | .latin => c.toNat < 256
  | _ => c.char?.isSome

/-- What marks the order of the bytes at the start. -/
def startMark : Encoding → List UInt8
  | .utf8 true => patternBytes 0xFEFF
  | .utf16 none => unitBytes .little 2 0xFEFF
  | .utf32 none => unitBytes .little 4 0xFEFF
  | _ => []

/-- Whether halves can be written like characters. -/
def isWide : Encoding → Bool
  | .ascii | .latin => false
  | _ => true

/-- A code by its number, in as many digits as it needs. -/
def numbered (c : Code) : String :=
  let hex := fun (n : Nat) =>
    let digits := Nat.toDigits 16 c.toNat
    String.ofList (List.replicate (n - digits.length) '0' ++ digits)
  if c.toNat < 0x100 then "\\x" ++ hex 2
  else if c.toNat < 0x10000 then "\\u" ++ hex 4
  else "\\U" ++ hex 8

/-- The bytes that stand for a code that cannot be written, by the rule for errors. -/
def replacement (e : Encoding) (rule : String) (c : Code) : Except Cause (List UInt8) :=
  let plain := fun (s : String) => (s.toList.flatMap fun d => e.rawBytes d.toNat)
  match rule with
  | "strict" => .error .notBytes
  | "ignore" => .ok []
  | "replace" => .ok (plain "?")
  | "backslashreplace" => .ok (plain (numbered c))
  | "xmlcharrefreplace" => .ok (plain ("&#" ++ toString c.toNat ++ ";"))
  | "surrogateescape" =>
    if 0xDC80 ≤ c.toNat && c.toNat < 0xDD00 then .ok [byte (c.toNat - 0xDC00)]
    else .error .notBytes
  | "surrogatepass" =>
    if e.isWide && c.char?.isNone then .ok (e.rawBytes c.toNat) else .error .notBytes
  | rule => .error (.unknownHandler rule)

def codeBytes (e : Encoding) (rule : String) (c : Code) : Except Cause (List UInt8) :=
  if e.covers c then .ok (e.rawBytes c.toNat) else e.replacement rule c

/-- **The bytes of some codes.** -/
def encode (e : Encoding) (rule : String) (cs : List Code) : Except Cause (List UInt8) := do
  return e.startMark ++ (← cs.mapM (e.codeBytes rule)).flatten

/-! ## Reading -/

/-- What is read at the start of some bytes: a code point, or so many bytes that are none. -/
inductive Step where
  | code (n size : Nat)
  | fault (size : Nat)
  deriving DecidableEq, Repr

/-- How many bytes follow the first byte of a code point in UTF-8, and what the first of these may
be. -/
def following (first : Nat) : Option (Nat × Nat × Nat) :=
  if 0xC2 ≤ first && first ≤ 0xDF then some (1, 0x80, 0xBF)
  else if first = 0xE0 then some (2, 0xA0, 0xBF)
  else if first = 0xED then some (2, 0x80, 0x9F)
  else if 0xE1 ≤ first && first ≤ 0xEF then some (2, 0x80, 0xBF)
  else if first = 0xF0 then some (3, 0x90, 0xBF)
  else if 0xF1 ≤ first && first ≤ 0xF3 then some (3, 0x80, 0xBF)
  else if first = 0xF4 then some (3, 0x80, 0x8F)
  else none

/-- The bytes that go on with a code point. -/
def continuation (count low high : Nat) : List UInt8 → List Nat
  | [] => []
  | b :: bs =>
    match count with
    | 0 => []
    | count + 1 =>
      if low ≤ b.toNat && b.toNat ≤ high then b.toNat :: continuation count 0x80 0xBF bs else []

/-- A step of UTF-8: a code point that is cut short is one fault as far as it goes. -/
def patternStep (b : UInt8) (bs : List UInt8) : Step :=
  let first := b.toNat
  if first < 0x80 then .code first 1
  else
    match following first with
    | none => .fault 1
    | some (count, low, high) =>
      let rest := continuation count low high bs
      if rest.length < count then .fault (rest.length + 1)
      else
        let lead := first - (match count with | 1 => 0xC0 | 2 => 0xE0 | _ => 0xF0)
        .code (rest.foldl (fun n d => 64 * n + (d - 0x80)) lead) (count + 1)

/-- A unit of so many bytes, if there are as many. -/
def unit? (order : ByteOrder) (size : Nat) (bs : List UInt8) : Option Nat :=
  let bytes := bs.take size
  if bytes.length < size then none
  else
    let little := match order with
      | .little => bytes
      | .big => bytes.reverse
    some (little.foldr (fun b n => b.toNat + 256 * n) 0)

def pairStep (order : ByteOrder) (bs : List UInt8) : Step :=
  match unit? order 2 bs with
  | none => .fault bs.length
  | some n =>
    if isLowHalf n then .fault 2
    else if isHighHalf n then
      match unit? order 2 (bs.drop 2) with
      | none => .fault bs.length
      | some m =>
        if isLowHalf m then .code (Code.ofPair n m).toNat 4 else .fault 2
    else .code n 2

def wideStep (order : ByteOrder) (bs : List UInt8) : Step :=
  match unit? order 4 bs with
  | none => .fault bs.length
  | some n => if n < 0x110000 && !(isHighHalf n || isLowHalf n) then .code n 4 else .fault 4

/-- A step at the start of some bytes. -/
def step (e : Encoding) (b : UInt8) (bs : List UInt8) : Step :=
  match e with
  | .ascii => if b.toNat < 128 then .code b.toNat 1 else .fault 1
  | .latin => .code b.toNat 1
  | .utf8 _ => patternStep b bs
  | .utf16 order => pairStep (order.getD .little) (b :: bs)
  | .utf32 order => wideStep (order.getD .little) (b :: bs)

/-- What stands for bytes that cannot be read, by the rule for errors. -/
def restored (rule : String) (bs : List UInt8) : Except Cause (List Code) :=
  match rule with
  | "strict" | "surrogatepass" => .error .notText
  | "ignore" => .ok []
  | "replace" => .ok [Code.ofNat 0xFFFD]
  | "backslashreplace" =>
    .ok (bs.flatMap fun b => (codes (numbered (Code.ofNat b.toNat))))
  | "surrogateescape" =>
    if bs.all (128 ≤ ·.toNat) then .ok (bs.map fun b => Code.ofNat (0xDC00 + b.toNat))
    else .error .notText
  | "xmlcharrefreplace" | "namereplace" => .error (.wrongType none)
  | rule => .error (.unknownHandler rule)

/-- Reads on. Each step takes a byte, so `fuel` is how many there are. -/
def decodeFrom (e : Encoding) (rule : String) : Nat → List UInt8 → Except Cause (List Code)
  | 0, _ | _, [] => .ok []
  | fuel + 1, b :: bs =>
    match e.step b bs with
    | .code n size => do
      return Code.ofNat n :: (← decodeFrom e rule fuel ((b :: bs).drop size))
    | .fault size => do
      let here ← restored rule ((b :: bs).take size)
      return here ++ (← decodeFrom e rule fuel ((b :: bs).drop size))

/-- The encoding that the mark at the start of some bytes tells, and the bytes after it. -/
def afterMark (e : Encoding) (bs : List UInt8) : Encoding × List UInt8 :=
  let starts := fun (m : List UInt8) => m.isPrefixOf bs
  match e with
  | .utf8 true => (e, if starts (patternBytes 0xFEFF) then bs.drop 3 else bs)
  | .utf16 none =>
    if starts (unitBytes .little 2 0xFEFF) then (e, bs.drop 2)
    else if starts (unitBytes .big 2 0xFEFF) then (.utf16 (some .big), bs.drop 2)
    else (e, bs)
  | .utf32 none =>
    if starts (unitBytes .little 4 0xFEFF) then (e, bs.drop 4)
    else if starts (unitBytes .big 4 0xFEFF) then (.utf32 (some .big), bs.drop 4)
    else (e, bs)
  | e => (e, bs)

/-- **The codes of some bytes.** -/
def decode (e : Encoding) (rule : String) (bs : List UInt8) : Except Cause (List Code) :=
  let (e, bs) := e.afterMark bs
  decodeFrom e rule bs.length bs

/-! ## Bytes as characters -/

theorem toNat_ofNat_of_lt {n : Nat} (h : n < 0xD800) : (Char.ofNat n).toNat = n := by
  have hv : n.isValidChar := Or.inl h
  rw [Char.ofNat, dif_pos hv]
  rfl

theorem toNat_ofNat_byte (b : UInt8) : (Code.ofNat b.toNat).toNat = b.toNat := by
  have h := b.toNat_lt
  have hn : ¬(firstHalf ≤ b.toNat ∧ b.toNat < firstHalf + 2048) := by
    have hf : firstHalf = 0xD800 := rfl
    omega
  rw [Code.ofNat, dif_neg hn]
  exact toNat_ofNat_of_lt (by omega)

theorem decodeFrom_latin (rule : String) (bs : List UInt8) :
    decodeFrom .latin rule bs.length bs = .ok (bs.map fun b => Code.ofNat b.toNat) := by
  induction bs with
  | nil => rfl
  | cons b bs ih => simp [decodeFrom, step, ih, bind, Except.bind, pure, Except.pure]

theorem decode_latin (rule : String) (bs : List UInt8) :
    decode .latin rule bs = .ok (bs.map fun b => Code.ofNat b.toNat) :=
  decodeFrom_latin rule bs

theorem codeBytes_latin (rule : String) (b : UInt8) :
    codeBytes .latin rule (Code.ofNat b.toNat) = .ok [b] := by
  have h := b.toNat_lt
  simp [codeBytes, covers, rawBytes, toNat_ofNat_byte, byte, h]

/-- **Bytes read as characters are written back as they were.** -/
theorem encode_of_decode_latin {rule : String} {bs : List UInt8} {cs : List Code}
    (h : decode .latin rule bs = .ok cs) : encode .latin rule cs = .ok bs := by
  rw [decode_latin] at h
  cases h
  have hm : ∀ bs : List UInt8, (bs.map fun b => Code.ofNat b.toNat).mapM (codeBytes .latin rule)
      = .ok (bs.map ([·])) := by
    intro bs
    induction bs with
    | nil => rfl
    | cons b bs ih =>
      simp [List.mapM_cons, codeBytes_latin, ih, bind, Except.bind, pure, Except.pure]
  simp [encode, startMark, hm, bind, Except.bind, pure, Except.pure, ← List.flatMap_def]

end Encoding

end Text

end TraitFactory
