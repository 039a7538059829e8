import OpposingKeys.Encoding
import OpposingKeys.TableText

/-!
# Table files

The bytes of a table file are decoded by their byte order mark. Behind a mark a second one may
stand; it is taken off as well, and it is the second one that decides. Without a mark the bytes are
read as UTF-8 strictly, and leniently where that fails. What is malformed never keeps a file from
being read.
-/

namespace OpposingKeys

set_option autoImplicit false

/-- How the bytes of a table are to be read. -/
structure TableBytes where
  /-- The first mark. -/
  mark : Option Encoding
  encoding : Encoding
  body : List UInt8
deriving DecidableEq

namespace TableBytes

def of (bytes : List UInt8) : TableBytes :=
  match Encoding.ofMark? bytes with
  | none => ⟨none, .utf8, bytes⟩
  | some (first, rest) =>
    match Encoding.ofMark? rest with
    | none => ⟨some first, first, rest⟩
    | some (second, body) => ⟨some first, second, body⟩

def decoded (t : TableBytes) : List (Option Char) := t.encoding.decode t.body

/-- Behind a mark the bytes are read leniently at once, without one only if they are not UTF-8. -/
def text (t : TableBytes) : List Char :=
  match t.mark with
  | some _ => Encoding.lenient t.decoded
  | none =>
    match Encoding.strict? t.decoded with
    | some text => text
    | none => Encoding.lenient t.decoded

def notices (t : TableBytes) : List Notice :=
  match t.mark with
  | some first =>
    Notice.decodedByMark first.name ::
      if Encoding.hasMalformed t.decoded then [.decodedWithReplacements] else []
  | none =>
    match Encoding.strict? t.decoded with
    | some _ => []
    | none =>
      Notice.notUtf8 :: if Encoding.hasMalformed t.decoded then [.utf8WithReplacements] else []

/-- The two readings agree on what is UTF-8, so it does not matter which of them was taken. -/
theorem text_eq (t : TableBytes) : t.text = Encoding.lenient t.decoded := by
  rw [text]
  split
  · rfl
  · split
    · next text hstrict => exact Encoding.eq_lenient_of_strict? hstrict
    · rfl

end TableBytes

namespace NamedTable

def decodeText (bytes : List UInt8) : List Char := (TableBytes.of bytes).text

theorem decodeText_eq (bytes : List UInt8) :
    decodeText bytes = Encoding.lenient (TableBytes.of bytes).decoded :=
  TableBytes.text_eq _

/-- The table of a file, of which reading gave the bytes or failed. -/
def load (content : Except StorageFault (List UInt8)) : Except LoadFault NamedTable :=
  match content with
  | .error fault => .error (.storage fault)
  | .ok bytes =>
    match parse (decodeText bytes) with
    | .error fault => .error (.table fault)
    | .ok t => .ok t

def loadNotices (content : Except StorageFault (List UInt8)) : List Notice :=
  match content with
  | .error _ => []
  | .ok bytes =>
    (TableBytes.of bytes).notices ++ parseNotices (decodeText bytes) ++
      match parse (decodeText bytes) with
      | .error _ => []
      | .ok t => [.tableLoaded t.name t.pairs.length]

end NamedTable

end OpposingKeys
