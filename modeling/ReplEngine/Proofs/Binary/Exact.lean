import Mathlib.Algebra.Group.Nat.Defs
import ReplEngine.Binary.Layout
import ReplEngine.Proofs.Binary.Utf8
import ReplEngine.Proofs.Reading
set_option autoImplicit false

/-!
# Readers that invert writers

`Exact fits put get` says of a writer and a reader that the reader accepts some bytes exactly when
they start with what the writer makes of a value, and that it then gives this value and leaves the
bytes behind it.  `fits` holds of the values whose lengths can be written in eight bytes; a reader
gives no others.

Both directions of a round trip are in the one equivalence: what was written is read back whatever
follows it, and what was read is what would be written.  `Exact` is kept by sequencing, so a record
is exact when its fields are, and by the options and lists below.
-/

namespace ReplEngine.Binary

open Reading

/-- The reader accepts what the writer makes of fitting values, and nothing else. -/
def Exact {α : Type} (fits : α → Prop) (put : α → Bytes) (get : Get α) : Prop :=
  ∀ (bytes : Bytes) (a : α) (rest : Bytes),
    get bytes = .ok (a, rest) ↔ fits a ∧ bytes = put a ++ rest

/-- Every value fits. -/
def Any {α : Type} (_ : α) : Prop := True

/-- A length that can be written in eight bytes. -/
def LengthFits (n : Nat) : Prop := n < 2 ^ 64

/-- The bytes of a text are few enough for their number to be written in eight bytes. -/
def TextFits (s : String) : Prop := LengthFits (Text.Utf8.encode s.toList).length

/-! ## Numbers -/

theorem refuse_eq_ok {α : Type} {e : DecodeError} {bytes : Bytes} {r : α × Bytes} :
    (refuse e : Get α) bytes = .ok r ↔ False := by
  simp [refuse]

theorem getByte_eq_ok {bytes : Bytes} {b : UInt8} {rest : Bytes} :
    getByte bytes = .ok (b, rest) ↔ bytes = b :: rest := by
  cases bytes with
  | nil => simp [getByte]
  | cons c cs => simp [getByte]

/-- A reader of numbers accepts the numbers below its bound, each in one form. -/
theorem getFixed_eq_ok {width : Nat} {bytes : Bytes} {n : Nat} {rest : Bytes} :
    getFixed width bytes = .ok (n, rest) ↔
      n < 256 ^ width ∧ bytes = putFixed width n ++ rest := by
  induction width generalizing bytes n rest with
  | zero =>
    rw [getFixed, pure_eq_ok, putFixed, List.nil_append, Nat.pow_zero, Nat.lt_one_iff,
      eq_comm (a := 0)]
  | succ width ih =>
    simp only [getFixed, bind_eq_ok, getByte_eq_ok, pure_eq_ok, ih, putFixed, List.cons_append]
    constructor
    · rintro ⟨low, _, rfl, high, _, ⟨hhigh, rfl⟩, rfl, rfl⟩
      have hlow := low.toNat_lt
      have e₁ : (low.toNat + 256 * high) % 256 = low.toNat := by omega
      have e₂ : (low.toNat + 256 * high) / 256 = high := by omega
      rw [e₁, e₂, UInt8.ofNat_toNat]
      refine ⟨?_, rfl⟩
      rw [Nat.pow_succ]
      omega
    · rintro ⟨hn, rfl⟩
      rw [Nat.pow_succ] at hn
      refine ⟨_, _, rfl, n / 256, rest, ⟨by omega, rfl⟩, ?_, rfl⟩
      rw [UInt8.toNat_ofNat']
      omega

/-- A word takes four bytes. -/
theorem word_exact : Exact Any putWord getWord := by
  intro bytes a rest
  rw [getWord, map_eq_ok]
  simp only [getFixed_eq_ok, putWord, Any, true_and]
  constructor
  · rintro ⟨n, ⟨hn, rfl⟩, rfl⟩
    rw [UInt32.toNat_ofNat_of_lt' hn]
  · rintro rfl
    exact ⟨a.toNat, ⟨a.toNat_lt, rfl⟩, UInt32.ofNat_toNat⟩

/-- A length takes eight bytes. -/
theorem length_exact : Exact LengthFits putLength getLength := by
  intro bytes n rest
  exact getFixed_eq_ok

/-- The choice of a variant takes four bytes; a reader refuses a choice that there is not. -/
theorem getVariant_eq_ok (count : Nat) (hcount : count ≤ 2 ^ 32) {bytes : Bytes} {index : Nat}
    {rest : Bytes} :
    getVariant count bytes = .ok (index, rest) ↔
      index < count ∧ bytes = putVariant index ++ rest := by
  simp only [getVariant, bind_eq_ok, getFixed_eq_ok, putVariant]
  constructor
  · rintro ⟨n, mid, ⟨-, rfl⟩, h⟩
    split at h
    · rename_i hn
      obtain ⟨rfl, rfl⟩ := pure_eq_ok.1 h
      exact ⟨hn, rfl⟩
    · exact (refuse_eq_ok.1 h).elim
  · rintro ⟨hindex, rfl⟩
    refine ⟨index, rest, ⟨Nat.lt_of_lt_of_le hindex hcount, rfl⟩, ?_⟩
    rw [if_pos hindex]
    rfl

/-! ## Texts, truth values, options and lists -/

theorem getRaw_eq_ok {length : Nat} {bytes raw rest : Bytes} :
    getRaw length bytes = .ok (raw, rest) ↔ raw.length = length ∧ bytes = raw ++ rest := by
  rw [getRaw]
  constructor
  · intro h
    split at h
    · rename_i hle
      cases h
      exact ⟨List.length_take_of_le hle, (List.take_append_drop length bytes).symm⟩
    · cases h
  · rintro ⟨rfl, rfl⟩
    simp

/-- A text is its length and its UTF-8 form; bytes that are not UTF-8 are refused. -/
theorem text_exact : Exact TextFits putText getText := by
  intro bytes s rest
  simp only [getText, bind_eq_ok, length_exact _ _ _, getRaw_eq_ok, putText, TextFits]
  constructor
  · rintro ⟨n, _, ⟨hn, rfl⟩, raw, _, ⟨rfl, rfl⟩, h⟩
    cases hcs : Text.Utf8.decode raw with
    | error e =>
      rw [hcs] at h
      exact (refuse_eq_ok.1 h).elim
    | ok cs =>
      rw [hcs] at h
      obtain ⟨rfl, rfl⟩ := pure_eq_ok.1 h
      have hraw : raw = Text.Utf8.encode cs := Text.Utf8.decode_eq_ok_iff.1 hcs
      rw [String.toList_ofList, ← hraw, List.append_assoc]
      exact ⟨hn, rfl⟩
  · rintro ⟨hs, rfl⟩
    refine ⟨_, _, ⟨hs, List.append_assoc _ _ _⟩, _, _, ⟨rfl, rfl⟩, ?_⟩
    rw [Text.Utf8.decode_eq_ok_iff.2 rfl]
    exact pure_eq_ok.2 ⟨String.ofList_toList, rfl⟩

/-- A truth value is a byte 0 or 1. -/
theorem bool_exact : Exact Any putBool getBool := by
  intro bytes b rest
  simp only [getBool, bind_eq_ok, getByte_eq_ok, putBool, Any, true_and]
  constructor
  · rintro ⟨a, mid, rfl, h⟩
    split at h
    · obtain ⟨rfl, rfl⟩ := pure_eq_ok.1 h
      subst a
      rfl
    split at h
    · obtain ⟨rfl, rfl⟩ := pure_eq_ok.1 h
      subst a
      rfl
    · exact (refuse_eq_ok.1 h).elim
  · rintro rfl
    cases b with
    | false => exact ⟨0, rest, rfl, rfl⟩
    | true => exact ⟨1, rest, rfl, rfl⟩

section Containers

variable {α : Type} {fits : α → Prop} {put : α → Bytes} {get : Get α}

/-- An optional value is a byte 0, or a byte 1 and the value. -/
theorem Exact.option (h : Exact fits put get) :
    Exact (fun o : Option α => ∀ a ∈ o, fits a) (putOption put) (getOption get) := by
  intro bytes o rest
  simp only [getOption, bind_eq_ok, getByte_eq_ok]
  constructor
  · rintro ⟨tag, mid, rfl, hrest⟩
    split at hrest
    · obtain ⟨rfl, rfl⟩ := pure_eq_ok.1 hrest
      subst tag
      exact ⟨(by simp), rfl⟩
    split at hrest
    · obtain ⟨a, ha, rfl⟩ := map_eq_ok.1 hrest
      obtain ⟨hfits, rfl⟩ := (h _ _ _).1 ha
      subst tag
      exact ⟨fun a' ha' => Option.some.inj ha' ▸ hfits, rfl⟩
    · exact (refuse_eq_ok.1 hrest).elim
  · rintro ⟨hfits, rfl⟩
    cases o with
    | none => exact ⟨0, rest, rfl, rfl⟩
    | some a =>
      refine ⟨1, put a ++ rest, rfl, ?_⟩
      exact map_eq_ok.2 ⟨a, (h _ _ _).2 ⟨hfits a rfl, rfl⟩, rfl⟩

/-- So many values, one after the other. -/
theorem Exact.many (h : Exact fits put get) {n : Nat} {bytes : Bytes} {as : List α}
    {rest : Bytes} :
    getMany get n bytes = .ok (as, rest) ↔
      as.length = n ∧ (∀ a ∈ as, fits a) ∧ bytes = as.flatMap put ++ rest := by
  induction n generalizing bytes as rest with
  | zero =>
    rw [getMany, pure_eq_ok, List.length_eq_zero_iff]
    constructor
    · rintro ⟨rfl, rfl⟩
      exact ⟨rfl, (by simp), rfl⟩
    · rintro ⟨rfl, -, rfl⟩
      exact ⟨rfl, rfl⟩
  | succ n ih =>
    simp only [getMany, bind_eq_ok, pure_eq_ok, h _ _ _, ih]
    constructor
    · rintro ⟨a, _, ⟨ha, rfl⟩, as', _, ⟨rfl, has, rfl⟩, rfl, rfl⟩
      refine ⟨rfl, ?_, ?_⟩
      · intro x hx
        rcases List.mem_cons.1 hx with rfl | hx
        · exact ha
        · exact has x hx
      · rw [List.flatMap_cons, List.append_assoc]
    · rintro ⟨hlen, hfits, rfl⟩
      cases as with
      | nil => cases hlen
      | cons a as =>
        have ha : fits a := hfits a (List.mem_cons_self ..)
        have has : ∀ x ∈ as, fits x := fun x hx => hfits x (List.mem_cons_of_mem _ hx)
        refine ⟨a, as.flatMap put ++ rest, ⟨ha, ?_⟩, as, rest, ?_, rfl, rfl⟩
        · rw [List.flatMap_cons, List.append_assoc]
        · exact ⟨Nat.succ.inj hlen, has, rfl⟩

/-- A list is its length and its elements. -/
theorem Exact.list (h : Exact fits put get) :
    Exact (fun as : List α => LengthFits as.length ∧ ∀ a ∈ as, fits a) (putList put)
      (getList get) := by
  intro bytes as rest
  simp only [getList, bind_eq_ok, length_exact _ _ _, h.many, putList]
  constructor
  · rintro ⟨n, _, ⟨hn, rfl⟩, rfl, has, rfl⟩
    exact ⟨⟨hn, has⟩, (List.append_assoc _ _ _).symm⟩
  · rintro ⟨⟨hn, has⟩, rfl⟩
    exact ⟨as.length, _, ⟨hn, List.append_assoc _ _ _⟩, rfl, has, rfl⟩

end Containers

/-! ## What exactness gives -/

/-- A format without ambiguity and without loss, of the values that fit.  Reading ignores what
stands behind a value. -/
structure Unambiguous {α : Type} (fits : α → Prop) (encode : α → Bytes)
    (decode : Bytes → Except DecodeError α) : Prop where
  /-- A value is read from its encoding with any bytes behind it, and from nothing else. -/
  decode_eq_ok : ∀ (bytes : Bytes) (a : α),
    decode bytes = .ok a ↔ fits a ∧ ∃ tail, bytes = encode a ++ tail
  /-- Different values have different encodings. -/
  encode_inj : ∀ a b : α, fits a → fits b → encode a = encode b → a = b
  /-- No encoding starts another one. -/
  prefix_free : ∀ a b : α, fits a → fits b → encode a <+: encode b → a = b
  /-- An encoding cut short is refused. -/
  refuses_cut : ∀ (a : α) (bytes : Bytes), fits a → bytes <+: encode a → bytes ≠ encode a →
    ∃ e, decode bytes = .error e

section Consequences

variable {α : Type} {fits : α → Prop} {put : α → Bytes} {get : Get α}

theorem Exact.decode_eq_ok (h : Exact fits put get) (bytes : Bytes) (a : α) :
    decode get bytes = .ok a ↔ fits a ∧ ∃ tail, bytes = put a ++ tail := by
  have hmap : decode get bytes = .ok a ↔ ∃ tail, get bytes = .ok (a, tail) := by
    show (get bytes).map Prod.fst = .ok a ↔ _
    cases get bytes with
    | error e => simp [Except.map]
    | ok p => simp [Except.map, Prod.ext_iff]
  rw [hmap]
  constructor
  · rintro ⟨tail, htail⟩
    obtain ⟨ha, hbytes⟩ := (h bytes a tail).1 htail
    exact ⟨ha, tail, hbytes⟩
  · rintro ⟨ha, tail, hbytes⟩
    exact ⟨tail, (h bytes a tail).2 ⟨ha, hbytes⟩⟩

theorem Exact.prefix_free (h : Exact fits put get) {a b : α} (ha : fits a) (hb : fits b)
    (hab : put a <+: put b) : a = b := by
  obtain ⟨tail, htail⟩ := hab
  have hreadA : decode get (put b) = .ok a := (h.decode_eq_ok _ _).2 ⟨ha, tail, htail.symm⟩
  have hreadB : decode get (put b) = .ok b :=
    (h.decode_eq_ok _ _).2 ⟨hb, [], (List.append_nil _).symm⟩
  exact Except.ok.inj (hreadA.symm.trans hreadB)

/-- An exact reader and writer make a format without ambiguity. -/
theorem Exact.unambiguous (h : Exact fits put get) : Unambiguous fits put (decode get) where
  decode_eq_ok := h.decode_eq_ok
  encode_inj a b ha hb hab := h.prefix_free ha hb (hab ▸ List.prefix_refl _)
  prefix_free _ _ ha hb hab := h.prefix_free ha hb hab
  refuses_cut a bytes ha hcut hne := by
    cases hread : decode get bytes with
    | error e => exact ⟨e, rfl⟩
    | ok b =>
      -- a value read from the prefix would be encoded in front of `a`
      obtain ⟨hb, tail, rfl⟩ := (h.decode_eq_ok _ _).1 hread
      have hba : b = a := h.prefix_free hb ha ((List.prefix_append _ _).trans hcut)
      subst hba
      exact absurd (hcut.eq_of_length_le (by simp)) hne

end Consequences

end ReplEngine.Binary
