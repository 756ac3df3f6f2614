import Turnstile.Json.Printer
import Turnstile.Json.Reader
import Turnstile.Proofs.Text.Utf8

namespace Turnstile.Json

open Utf8 (encodeChars)

/-- The control characters that have no short escape and are printed as code units. -/
def isUnit (c : Char) : Bool :=
  c.toNat < 0x20 && c != '\n' && c != '\r' && c != '\t' && c.toNat != 0x08 && c.toNat != 0x0C

def charPieces (c : Char) : List Piece :=
  if isUnit c then [.unit c.toNat] else (String.utf8EncodeChar c).map .byte

def textPieces (t : String) : List Piece := t.toList.flatMap charPieces

namespace Grammar

/-- A byte that stands for itself in a string. -/
def IsPlain (b : UInt8) : Prop := 0x20 ≤ b.toNat ∧ b ≠ 0x22 ∧ b ≠ 0x5C

theorem pieces_plain {b : UInt8} (h : IsPlain b) (s : List UInt8) :
    pieces (b :: s) = (pieces s).map fun (ps, r) => (.byte b :: ps, r) := by
  obtain ⟨least, quote, backslash⟩ := h
  have printable : ¬ b < 0x20 := by
    rw [UInt8.lt_iff_toNat_lt]
    exact Nat.not_lt.mpr least
  rw [pieces.eq_4 _ _ (fun eq => quote eq) (fun _ _ _ _ _ eq _ => backslash eq)
    (fun _ _ eq _ => backslash eq)]
  simp [printable, backslash]

theorem pieces_append {bs : List UInt8} (h : ∀ b ∈ bs, IsPlain b) (s : List UInt8) :
    pieces (bs ++ s) = (pieces s).map fun (ps, r) => (bs.map .byte ++ ps, r) := by
  induction bs with
  | nil => simp
  | cons b bs ih =>
    obtain ⟨plain, later⟩ := List.forall_mem_cons.mp h
    rw [List.cons_append, pieces_plain plain, ih later, Option.map_map]
    rfl

theorem pieces_short (letter : UInt8) {b : UInt8} (h : shortEscape? letter = some b)
    (s : List UInt8) :
    pieces (0x5C :: letter :: s) = (pieces s).map fun (ps, r) => (.byte b :: ps, r) := by
  have notUnit : letter ≠ 0x75 := by
    rintro rfl
    cases h
  rw [pieces.eq_3 _ _ (fun _ _ _ _ _ eq _ => notUnit eq), h]

/-- The four digits of a code unit below U+0020. -/
def lowUnit (n : Nat) : List Char := ['0', '0', Ascii.hexDigit (n / 16), Ascii.hexDigit (n % 16)]

theorem pieces_lowUnit {n : Nat} (h : n < 0x20) (s : List UInt8) :
    pieces (0x5C :: 0x75 :: (encodeChars (lowUnit n) ++ s)) =
      (pieces s).map fun (ps, r) => (.unit n :: ps, r) := by
  have bytes : ∀ n < 0x20, encodeChars (lowUnit n) =
      [0x30, 0x30, UInt8.ofNat (Ascii.hexDigit (n / 16)).toNat,
        UInt8.ofNat (Ascii.hexDigit (n % 16)).toNat] := by decide
  have value : ∀ n < 0x20, codeUnit [0x30, 0x30, UInt8.ofNat (Ascii.hexDigit (n / 16)).toNat,
      UInt8.ofNat (Ascii.hexDigit (n % 16)).toNat] = some (n, []) := by decide
  rw [bytes n h]
  simp only [List.cons_append, List.nil_append]
  rw [pieces.eq_2, value n h]

/-- The bytes of a character that is printed as it is stand for themselves. -/
theorem isPlain_encodeChar {c : Char} (printable : 0x20 ≤ c.toNat) (quote : c ≠ '"')
    (backslash : c ≠ '\\') : ∀ b ∈ String.utf8EncodeChar c, IsPlain b := by
  by_cases ascii : c.toNat < 0x80
  · rw [Utf8.encodeChar_of_lt ascii]
    have toNat : (UInt8.ofNat c.toNat).toNat = c.toNat := by
      rw [UInt8.toNat_ofNat']
      omega
    have other (d : Char) (ne : c ≠ d) : (UInt8.ofNat c.toNat).toNat ≠ d.toNat := by
      rw [toNat]
      exact fun eq => ne (Char.toNat_inj.mp eq)
    refine List.forall_mem_singleton.mpr ⟨by omega, ?_, ?_⟩
    · exact fun eq => other '"' quote (congrArg UInt8.toNat eq)
    · exact fun eq => other '\\' backslash (congrArg UInt8.toNat eq)
  · intro b mem
    have high := (Utf8.written_encodeChar c).high (Nat.not_lt.mp ascii) b mem
    refine ⟨by omega, ?_, ?_⟩ <;> rintro rfl <;> exact absurd high (by decide)

/-- What is printed for a character is read back as its pieces. -/
theorem pieces_escapeChar (c : Char) (s : List UInt8) :
    pieces (encodeChars (escapeChar c) ++ s) =
      (pieces s).map fun (ps, r) => (charPieces c ++ ps, r) := by
  have self : Char.ofNat c.toNat = c := Char.ofNat_toNat c
  by_cases quote : c = '"'
  · subst quote
    exact pieces_short 0x22 rfl s
  by_cases backslash : c = '\\'
  · subst backslash
    exact pieces_short 0x5C rfl s
  by_cases feed : c = '\n'
  · subst feed
    exact pieces_short 0x6E rfl s
  by_cases carriage : c = '\r'
  · subst carriage
    exact pieces_short 0x72 rfl s
  by_cases tab : c = '\t'
  · subst tab
    exact pieces_short 0x74 rfl s
  by_cases backspace : c.toNat = 0x08
  · rw [backspace] at self
    subst self
    exact pieces_short 0x62 rfl s
  by_cases form : c.toNat = 0x0C
  · rw [form] at self
    subst self
    exact pieces_short 0x66 rfl s
  by_cases control : c.toNat < 0x20
  · have printed : escapeChar c = '\\' :: 'u' :: lowUnit c.toNat := by
      simp [escapeChar, quote, backslash, feed, carriage, tab, backspace, form, control, lowUnit]
    have asUnit : charPieces c = [.unit c.toNat] := by
      simp [charPieces, isUnit, feed, carriage, tab, backspace, form, control]
    rw [printed, asUnit]
    exact pieces_lowUnit control s
  · have printed : escapeChar c = [c] := by
      simp [escapeChar, quote, backslash, feed, carriage, tab, backspace, form, control]
    have asBytes : charPieces c = (String.utf8EncodeChar c).map .byte := by
      simp [charPieces, isUnit, control]
    have plain := isPlain_encodeChar (Nat.not_lt.mp control) quote backslash
    rw [printed, asBytes, Utf8.encodeChars_cons, Utf8.encodeChars_nil, List.append_nil,
      pieces_append plain]

/-- A string is read back up to its closing quote. -/
theorem pieces_quote (cs : List Char) (s : List UInt8) :
    pieces (encodeChars (cs.flatMap escapeChar ++ ['"']) ++ s) =
      some (cs.flatMap charPieces, s) := by
  induction cs with
  | nil => rfl
  | cons c cs ih =>
    rw [List.flatMap_cons, List.append_assoc, Utf8.encodeChars_append, List.append_assoc,
      pieces_escapeChar, ih, List.flatMap_cons]
    rfl

end Grammar

/-- A code unit that is no surrogate stands for its character, whatever follows it. -/
theorem pieceBytes_unit {u : Nat} (h : u < 0xD800) (ps : List Piece) :
    pieceBytes (.unit u :: ps) =
      (pieceBytes ps).map (String.utf8EncodeChar (Char.ofNat u) ++ ·) := by
  have high : isHighSurrogate u = false := by
    simp [isHighSurrogate]
    omega
  have low : isLowSurrogate u = false := by
    simp [isLowSurrogate]
    omega
  cases ps with
  | nil => simp [pieceBytes, high, low]
  | cons p ps => cases p <;> simp [pieceBytes, high, low]

theorem pieceBytes_append (bs : List UInt8) (ps : List Piece) :
    pieceBytes (bs.map .byte ++ ps) = (pieceBytes ps).map (bs ++ ·) := by
  induction bs with
  | nil => simp
  | cons b bs ih =>
    rw [List.map_cons, List.cons_append, pieceBytes, ih, Option.map_map]
    rfl

theorem pieceBytes_charPieces (c : Char) (ps : List Piece) :
    pieceBytes (charPieces c ++ ps) = (pieceBytes ps).map (String.utf8EncodeChar c ++ ·) := by
  rw [charPieces]
  split
  · next unit =>
    have small : c.toNat < 0x20 := by simp_all [isUnit]
    rw [List.singleton_append, pieceBytes_unit (by omega), Char.ofNat_toNat]
  · exact pieceBytes_append _ ps

/-- The pieces of a text stand for it. -/
theorem piecesText?_textPieces (t : String) : piecesText? (textPieces t) = some t := by
  have bytes : pieceBytes (textPieces t) = some (Utf8.encode t) := by
    rw [textPieces, Utf8.encode]
    induction t.toList with
    | nil => rfl
    | cons c cs ih => rw [List.flatMap_cons, pieceBytes_charPieces, ih, Utf8.encodeChars_cons]; rfl
  rw [piecesText?, bytes]
  exact Utf8.text?_encode t

end Turnstile.Json
