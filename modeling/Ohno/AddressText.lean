import Mathlib.Data.BitVec
import Mathlib.Data.List.Basic
import Ohno.DelimitedLists

/-!
# The texts of numbers and IPv4 addresses

Decimal numbers are `Nat.toDigits 10`. An address is a 32-bit vector written as
four decimal octets, and a CIDR text puts a prefix length behind it. Both are
`join` at their delimiter, so that reading back and injectivity come from
`split_join`. No text below contains a comma, a line break or a blank.
-/
namespace Ohno.AddressText
open DelimitedLists

/-- A byte string, one character for each byte. Everything the program stores or
passes on is one. -/
abbrev Text := List Char

def decimal (n : ℕ) : Text := Nat.toDigits 10 n

theorem decimal_injective {m n : ℕ} (h : decimal m = decimal n) : m = n := by
  have := congrArg (Nat.ofDigitChars 10 · 0) h
  simpa only [decimal, Nat.ofDigitChars_ten_toDigits] using this

theorem decimal_ne_nil (n : ℕ) : decimal n ≠ [] := Nat.toDigits_ne_nil

theorem isDigit_of_mem_decimal {n : ℕ} {c : Char} (h : c ∈ decimal n) : c.isDigit :=
  Nat.isDigit_of_mem_toDigits (by decide) (by decide) h

theorem notMem_decimal {n : ℕ} {c : Char} (hc : c.isDigit = false) : c ∉ decimal n := by
  intro h
  simp [isDigit_of_mem_decimal h] at hc

/-- The four octets, the most significant one first. -/
def octets (a : BitVec 32) : List ℕ :=
  [a.toNat / 2 ^ 24 % 2 ^ 8, a.toNat / 2 ^ 16 % 2 ^ 8, a.toNat / 2 ^ 8 % 2 ^ 8, a.toNat % 2 ^ 8]

theorem octets_injective {a b : BitVec 32} (h : octets a = octets b) : a = b := by
  simp only [octets, List.cons.injEq, and_true] at h
  have ha := a.isLt
  have hb := b.isLt
  exact BitVec.eq_of_toNat_eq (by omega)

def dottedQuad (a : BitVec 32) : Text := join '.' ((octets a).map decimal)

theorem readable_octets (a : BitVec 32) : Readable '.' ((octets a).map decimal) := by
  refine Readable.of_forall fun x hx => ?_
  obtain ⟨n, -, rfl⟩ := List.mem_map.mp hx
  exact ⟨notMem_decimal (by decide), decimal_ne_nil n⟩

theorem dottedQuad_injective {a b : BitVec 32} (h : dottedQuad a = dottedQuad b) : a = b := by
  have hs := congrArg (split '.') h
  rw [dottedQuad, dottedQuad, split_join _ (readable_octets a),
    split_join _ (readable_octets b)] at hs
  exact octets_injective (List.map_injective_iff.mpr (fun _ _ => decimal_injective) hs)

theorem mem_dottedQuad {a : BitVec 32} {c : Char} (h : c ∈ dottedQuad a) :
    c = '.' ∨ c.isDigit := by
  rcases mem_join '.' h with h | ⟨x, hx, hc⟩
  · exact .inl h
  · obtain ⟨n, -, rfl⟩ := List.mem_map.mp hx
    exact .inr (isDigit_of_mem_decimal hc)

theorem dottedQuad_ne_nil (a : BitVec 32) : dottedQuad a ≠ [] := by
  rw [dottedQuad, Ne, join_eq_nil_iff]
  simp [octets]

/-- An address with a prefix length. -/
def cidr (a : BitVec 32) (p : ℕ) : Text := join '/' [dottedQuad a, decimal p]

theorem readable_cidr (a : BitVec 32) (p : ℕ) : Readable '/' [dottedQuad a, decimal p] := by
  refine Readable.of_forall fun x hx => ?_
  simp only [List.mem_cons, List.not_mem_nil, or_false] at hx
  rcases hx with rfl | rfl
  · refine ⟨fun h => ?_, dottedQuad_ne_nil a⟩
    rcases mem_dottedQuad h with h | h <;> simp at h
  · exact ⟨notMem_decimal (by decide), decimal_ne_nil p⟩

theorem cidr_eq (a : BitVec 32) (p : ℕ) : cidr a p = dottedQuad a ++ '/' :: decimal p := by
  simp [cidr, join_cons]

theorem cidr_injective {a b : BitVec 32} {p q : ℕ} (h : cidr a p = cidr b q) : a = b ∧ p = q := by
  have hs := congrArg (split '/') h
  rw [cidr, cidr, split_join _ (readable_cidr a p), split_join _ (readable_cidr b q)] at hs
  simp only [List.cons.injEq, and_true] at hs
  exact ⟨dottedQuad_injective hs.1, decimal_injective hs.2⟩

theorem cidr_ne_nil (a : BitVec 32) (p : ℕ) : cidr a p ≠ [] := by simp [cidr_eq]

theorem mem_cidr {a : BitVec 32} {p : ℕ} {c : Char} (h : c ∈ cidr a p) :
    c = '.' ∨ c = '/' ∨ c.isDigit := by
  rw [cidr_eq, List.mem_append, List.mem_cons] at h
  rcases h with h | h | h
  · rcases mem_dottedQuad h with h | h
    · exact .inl h
    · exact .inr (.inr h)
  · exact .inr (.inl h)
  · exact .inr (.inr (isDigit_of_mem_decimal h))

theorem notMem_cidr {a : BitVec 32} {p : ℕ} {c : Char} (hd : c ≠ '.') (hs : c ≠ '/')
    (hc : c.isDigit = false) : c ∉ cidr a p := by
  intro h
  rcases mem_cidr h with h | h | h
  · exact hd h
  · exact hs h
  · simp [h] at hc

/-- What is left of a text when its line breaks are removed. -/
def eraseNewlines (t : Text) : Text := t.filter (· ≠ '\n')

theorem eraseNewlines_eq_self {t : Text} (h : '\n' ∉ t) : eraseNewlines t = t := by
  rw [eraseNewlines, List.filter_eq_self]
  intro c hc
  simpa using fun hn : c = '\n' => h (hn ▸ hc)

@[simp] theorem eraseNewlines_append (t u : Text) :
    eraseNewlines (t ++ u) = eraseNewlines t ++ eraseNewlines u := List.filter_append ..
@[simp] theorem eraseNewlines_newline : eraseNewlines ['\n'] = [] := rfl
@[simp] theorem eraseNewlines_nil : eraseNewlines [] = [] := rfl

theorem newline_notMem_eraseNewlines (t : Text) : '\n' ∉ eraseNewlines t := by
  simp [eraseNewlines]

end Ohno.AddressText
