/-
MemMux/Utf8.lean

Lossy decoding of UTF-8 as a machine that reads one byte at a time.

Between two bytes the machine is either between characters or inside one; inside, it knows the
range the next byte must lie in.  A byte out of that range ends the character as U+FFFD and
is read again from between characters, so every maximal ill-formed piece becomes one
U+FFFD.  Decoding may stop and go on anywhere as long as the state is kept; `fromUtf8Lossy`
forgets the state at the end of its input.

Strict decoding, `fromUtf8`, takes one character after the other off the front and gives nothing
where there is none; it accepts exactly the encodings (`fromUtf8_eq_some_iff`).
-/
import Mathlib.Algebra.Group.Nat.Defs
import Mathlib.Data.List.Basic
import Mathlib.Tactic.Common
import Mathlib.Tactic.SplitIfs

namespace Utf8

/-! ### The machine -/

/-- A character under way: its bits so far, the range of its next byte, and how many more
bytes come after that one. -/
structure Partial where
  code : Nat
  lo : UInt8
  hi : UInt8
  more : Nat
  continues : 0x80 ≤ lo ∧ hi ≤ 0xBF
  /-- no code point it can still become fits in one byte -/
  wide : 0x80 ≤ (code * 64 + (lo.toNat - 0x80)) * 64 ^ more
  deriving DecidableEq, Repr

/-- Where the machine stands: between characters, or inside one. -/
abbrev State := Option Partial

/-- U+FFFD. -/
def replacement : Char := '\uFFFD'

/-- A character whose next byte may be any continuation byte. -/
def continuation (code more : Nat) (h : 0x80 ≤ code * 64 * 64 ^ more) : Partial where
  code := code
  lo := 0x80
  hi := 0xBF
  more := more
  continues := by decide
  wide := h

theorem wide_of_le {lo b : UInt8} (base more : Nat) (h : lo ≤ b)
    (hlo : 0x80 ≤ (lo.toNat - base) * 64 * 64 ^ more) :
    0x80 ≤ (b.toNat - base) * 64 * 64 ^ more := by
  have hb : lo.toNat - base ≤ b.toNat - base :=
    Nat.sub_le_sub_right (UInt8.le_iff_toNat_le.mp h) base
  exact Nat.le_trans hlo (Nat.mul_le_mul_right _ (Nat.mul_le_mul_right _ hb))

/-- The first byte of a character. -/
def lead (b : UInt8) : List Char × State :=
  if b < 0x80 then ([Char.ofNat b.toNat], none)
  else if h : 0xC2 ≤ b ∧ b ≤ 0xDF then
    ([], some (continuation (b.toNat - 0xC0) 0 (wide_of_le 0xC0 0 h.1 (by decide))))
  else if b = 0xE0 then ([], some ⟨0, 0xA0, 0xBF, 1, by decide, by decide⟩)
  else if b = 0xED then ([], some ⟨0xD, 0x80, 0x9F, 1, by decide, by decide⟩)
  else if h : 0xE1 ≤ b ∧ b ≤ 0xEF then
    ([], some (continuation (b.toNat - 0xE0) 1 (wide_of_le 0xE0 1 h.1 (by decide))))
  else if b = 0xF0 then ([], some ⟨0, 0x90, 0xBF, 2, by decide, by decide⟩)
  else if h : 0xF1 ≤ b ∧ b ≤ 0xF3 then
    ([], some (continuation (b.toNat - 0xF0) 2 (wide_of_le 0xF0 2 h.1 (by decide))))
  else if b = 0xF4 then ([], some ⟨4, 0x80, 0x8F, 2, by decide, by decide⟩)
  else ([replacement], none)

/-- Whether the character goes on with the byte `b`. -/
def Partial.accepts (p : Partial) (b : UInt8) : Bool := p.lo ≤ b && b ≤ p.hi

/-- The code point so far, with one more byte. -/
def Partial.extend (p : Partial) (b : UInt8) : Nat := p.code * 64 + (b.toNat - 0x80)

theorem Partial.extend_wide {p : Partial} {b : UInt8} (h : p.accepts b) :
    0x80 ≤ p.extend b * 64 ^ p.more := by
  have hlo : p.lo.toNat ≤ b.toNat := by
    simp only [Partial.accepts, Bool.and_eq_true, decide_eq_true_eq] at h
    exact UInt8.le_iff_toNat_le.mp h.1
  have hcode : p.code * 64 + (p.lo.toNat - 0x80) ≤ p.extend b :=
    Nat.add_le_add_left (Nat.sub_le_sub_right hlo 0x80) _
  exact Nat.le_trans p.wide (Nat.mul_le_mul_right _ hcode)

/-- One byte: the characters it completes, and where the machine stands after it. -/
def feed (s : State) (b : UInt8) : List Char × State :=
  match s with
  | none => lead b
  | some p =>
      if h : p.accepts b then
        match hm : p.more with
        | 0 => ([Char.ofNat (p.extend b)], none)
        | more + 1 => ([], some (continuation (p.extend b) more (by
            have := Partial.extend_wide h
            rw [hm, Nat.pow_succ'] at this
            rwa [Nat.mul_assoc])))
      else (replacement :: (lead b).1, (lead b).2)

/-- A sequence of bytes. -/
def feedAll : State → List UInt8 → List Char × State
  | s, [] => ([], s)
  | s, b :: bs => ((feed s b).1 ++ (feedAll (feed s b).2 bs).1, (feedAll (feed s b).2 bs).2)

/-- What the end of the input makes of an unfinished character. -/
def finish : State → List Char
  | none => []
  | some _ => [replacement]

/-- `String::from_utf8_lossy`. -/
def fromUtf8Lossy (bs : List UInt8) : List Char :=
  (feedAll none bs).1 ++ finish (feedAll none bs).2

/-- A euro sign, a character cut short, and a byte that begins none. -/
example : fromUtf8Lossy [0xE2, 0x82, 0xAC, 0xF0, 0x9F, 0x41, 0xFF]
    = ['€', replacement, 'A', replacement] := by decide

/-! ### The empty input -/

@[simp] theorem finish_none : finish none = [] := rfl

@[simp] theorem finish_some (p : Partial) : finish (some p) = [replacement] := rfl

@[simp] theorem feedAll_nil (s : State) : feedAll s [] = ([], s) := rfl

/-! ### Kinds of bytes -/

theorem Partial.not_ascii {p : Partial} {b : UInt8} (h : p.accepts b) : 0x80 ≤ b ∧ b ≤ 0xBF := by
  simp only [Partial.accepts, Bool.and_eq_true, decide_eq_true_eq] at h
  exact ⟨UInt8.le_trans p.continues.1 h.1, UInt8.le_trans h.2 p.continues.2⟩

theorem lead_ascii {b : UInt8} (h : b < 0x80) : lead b = ([Char.ofNat b.toNat], none) := if_pos h

/-- A continuation byte begins no character. -/
theorem lead_continuation {b : UInt8} (h : 0x80 ≤ b ∧ b ≤ 0xBF) :
    lead b = ([replacement], none) := by
  have hhi : b.toNat ≤ 0xBF := UInt8.le_iff_toNat_le.mp h.2
  have below : ∀ {c : UInt8}, 0xBF < c.toNat → ¬ c ≤ b := fun hc hle => by
    have := UInt8.le_iff_toNat_le.mp hle
    omega
  have other : ∀ {c : UInt8}, 0xBF < c.toNat → b ≠ c := by
    rintro c hc rfl
    omega
  unfold lead
  rw [if_neg (UInt8.not_lt.mpr h.1), dif_neg fun hc => below (by decide) hc.1,
    if_neg (other (by decide)), if_neg (other (by decide)),
    dif_neg fun hc => below (by decide) hc.1, if_neg (other (by decide)),
    dif_neg fun hc => below (by decide) hc.1, if_neg (other (by decide))]

/-- A byte of its own ends whatever is under way. -/
theorem feed_ascii (s : State) {b : UInt8} (h : b < 0x80) :
    feed s b = (finish s ++ [Char.ofNat b.toNat], none) := by
  cases s with
  | none => exact lead_ascii h
  | some p =>
      have hp : ¬ p.accepts b := fun ha =>
        absurd h (UInt8.not_lt.mpr (Partial.not_ascii ha).1)
      simp [feed, hp, lead_ascii h, finish]

/-- A first byte is a character of its own, begins one, or is replaced. -/
theorem lead_cases (b : UInt8) :
    b < 0x80 ∧ lead b = ([Char.ofNat b.toNat], none) ∨ (∃ p, lead b = ([], some p)) ∨
      lead b = ([replacement], none) := by
  by_cases hb : b < 0x80
  · exact .inl ⟨hb, lead_ascii hb⟩
  · right
    unfold lead
    rw [if_neg hb]
    repeat' split
    all_goals first | exact .inl ⟨_, rfl⟩ | exact .inr rfl

/-- A byte that completes nothing leaves a character under way. -/
theorem feed_silent {s : State} {b : UInt8} (h : (feed s b).1 = []) : (feed s b).2 ≠ none := by
  have hlead : (lead b).1 = [] → (lead b).2 ≠ none := by
    rcases lead_cases b with ⟨-, heq⟩ | ⟨p, heq⟩ | heq <;> rw [heq] <;> simp
  rcases s with - | p
  · exact hlead h
  · unfold feed at h ⊢
    dsimp only at h ⊢
    split_ifs at h ⊢ with ha
    split at h <;> simp_all

theorem toNat_ofNat_ne {n m : Nat} (hm : 0 < m) (hn : n ≠ m) : (Char.ofNat n).toNat ≠ m := by
  unfold Char.ofNat
  by_cases hv : n.isValidChar
  · rw [dif_pos hv]
    show UInt32.toNat (UInt32.ofNatLT n _) ≠ m
    rwa [UInt32.toNat_ofNatLT]
  · rw [dif_neg hv]
    exact Nat.ne_of_lt hm

/-- No other byte completes a character of one byte. -/
theorem not_mem_feed (s : State) {b : UInt8} (h : 0x80 ≤ b) {c : Char}
    (hc : 0 < c.toNat ∧ c.toNat < 0x80) : c ∉ (feed s b).1 := by
  have hrep : c ≠ replacement := by
    rintro rfl
    exact absurd hc.2 (by decide)
  have hlead : c ∉ (lead b).1 := by
    rcases lead_cases b with ⟨hb, -⟩ | ⟨p, heq⟩ | heq
    · exact absurd hb (UInt8.not_lt.mpr h)
    · rw [heq]
      exact List.not_mem_nil
    · rw [heq]
      exact fun hmem => hrep (List.mem_singleton.mp hmem)
  rcases s with - | p
  · exact hlead
  · unfold feed
    dsimp only
    split_ifs with ha
    · split
      · rename_i hm
        -- the character is complete, and too wide to be `c`
        have hw := Partial.extend_wide ha
        rw [hm, Nat.pow_zero, Nat.mul_one] at hw
        have hne : (Char.ofNat (p.extend b)).toNat ≠ c.toNat := toNat_ofNat_ne hc.1 (by omega)
        intro hmem
        exact hne (congrArg Char.toNat (List.mem_singleton.mp hmem)).symm
      · simp
    · simp [hrep, hlead]

/-! ### Strict decoding -/

/-- The bytes of a text. -/
def encode (cs : List Char) : List UInt8 := cs.flatMap String.utf8EncodeChar

@[simp] theorem encode_nil : encode [] = [] := rfl

@[simp] theorem encode_cons (c : Char) (cs : List Char) :
    encode (c :: cs) = String.utf8EncodeChar c ++ encode cs := rfl

@[simp] theorem encode_append (cs ds : List Char) : encode (cs ++ ds) = encode cs ++ encode ds :=
  List.flatMap_append

/-- Take up to `fuel` characters off the front, until nothing is left. -/
def decodeLoop : Nat → List UInt8 → Option (List Char)
  | _, [] => some []
  | 0, _ :: _ => none
  | fuel + 1, b :: bs =>
      match (b :: bs).toByteArray.utf8DecodeChar? 0 with
      | none => none
      | some c => (decodeLoop fuel ((b :: bs).drop c.utf8Size)).map (c :: ·)

/-- `String::from_utf8`: a character has at least one byte, so there are at most as many. -/
def fromUtf8 (bs : List UInt8) : Option (List Char) := decodeLoop bs.length bs

/-- A lone byte of a longer character is refused. -/
example : fromUtf8 [0xE2, 0x82, 0xAC, 0x41] = some ['€', 'A'] ∧ fromUtf8 [0x41, 0xFF] = none := by
  decide

/-- A character taken off the front is its bytes and the rest. -/
theorem eq_append_of_decodeChar {bs : List UInt8} {c : Char}
    (h : bs.toByteArray.utf8DecodeChar? 0 = some c) :
    bs = String.utf8EncodeChar c ++ bs.drop c.utf8Size := by
  obtain ⟨rest, hrest⟩ := ByteArray.exists_of_utf8DecodeChar?_eq_some h
  have hlist : bs = String.utf8EncodeChar c ++ rest.data.toList := by
    simpa using congrArg (fun b : ByteArray => b.data.toList) hrest
  have hdrop : bs.drop c.utf8Size = rest.data.toList := by
    conv_lhs => rw [hlist]
    exact List.drop_left' (String.length_utf8EncodeChar c)
  rwa [hdrop]

theorem decodeChar_append (c : Char) (bs : List UInt8) :
    (String.utf8EncodeChar c ++ bs).toByteArray.utf8DecodeChar? 0 = some c := by
  rw [List.toByteArray_append]
  exact ByteArray.utf8DecodeChar?_utf8EncodeChar_append

theorem decodeLoop_sound {fuel : Nat} {bs : List UInt8} {cs : List Char}
    (h : decodeLoop fuel bs = some cs) : encode cs = bs := by
  induction fuel, bs using decodeLoop.induct generalizing cs with
  | case1 fuel =>
      simp only [decodeLoop, Option.some.injEq] at h
      rw [← h, encode_nil]
  | case2 b bs => simp [decodeLoop] at h
  | case3 fuel b bs hc => simp [decodeLoop, hc] at h
  | case4 fuel b bs c hc ih =>
      simp only [decodeLoop, hc, Option.map_eq_some_iff] at h
      obtain ⟨ds, hds, rfl⟩ := h
      rw [encode_cons, ih hds]
      exact (eq_append_of_decodeChar hc).symm

theorem decodeLoop_encode (cs : List Char) {fuel : Nat} (h : (encode cs).length ≤ fuel) :
    decodeLoop fuel (encode cs) = some cs := by
  induction cs generalizing fuel with
  | nil => cases fuel <;> rfl
  | cons c cs ih =>
      have hc : (String.utf8EncodeChar c).length = c.utf8Size := String.length_utf8EncodeChar c
      have hpos := c.utf8Size_pos
      rw [encode_cons, List.length_append, hc] at h
      obtain ⟨b, bs, hbs⟩ : ∃ b bs, String.utf8EncodeChar c ++ encode cs = b :: bs := by
        refine List.exists_cons_of_ne_nil fun hnil => ?_
        have := congrArg List.length hnil
        rw [List.length_append, hc, List.length_nil] at this
        omega
      obtain ⟨fuel, rfl⟩ : ∃ n, fuel = n + 1 := ⟨fuel - 1, by omega⟩
      have hfirst := decodeChar_append c (encode cs)
      have hrest : (b :: bs).drop c.utf8Size = encode cs := hbs ▸ List.drop_left' hc
      rw [hbs] at hfirst
      rw [encode_cons, hbs, decodeLoop, hfirst]
      dsimp only
      rw [hrest, ih (by omega)]
      rfl

/-- **Strict decoding accepts exactly the encodings**, and gives the text back. -/
theorem fromUtf8_eq_some_iff {bs : List UInt8} {cs : List Char} :
    fromUtf8 bs = some cs ↔ encode cs = bs := by
  constructor
  · exact decodeLoop_sound
  · rintro rfl
    exact decodeLoop_encode cs (Nat.le_refl _)

theorem fromUtf8_encode (cs : List Char) : fromUtf8 (encode cs) = some cs :=
  fromUtf8_eq_some_iff.mpr rfl

/-! ### Cutting at a byte of its own -/

/-- A byte of a longer character is at least 0x80. -/
theorem not_ascii_ofNat {k : Nat} (hlo : 0x80 ≤ k) (hhi : k < 256) : ¬UInt8.ofNat k < 0x80 := by
  intro h
  have hlt := UInt8.lt_iff_toNat_lt.mp h
  rw [UInt8.toNat_ofNat', Nat.mod_eq_of_lt hhi] at hlt
  exact absurd hlo (Nat.not_le_of_lt hlt)

/-- A byte below 0x80 is a character of its own. -/
theorem encodeChar_of_mem {c : Char} {b : UInt8} (hb : b < 0x80)
    (h : b ∈ String.utf8EncodeChar c) : String.utf8EncodeChar c = [b] := by
  unfold String.utf8EncodeChar at h ⊢
  dsimp only at h ⊢
  have hone : c.val.toNat ≤ 0x7f := by
    by_contra hne
    rw [if_neg hne] at h
    refine absurd hb ?_
    split at h
    · simp only [List.mem_cons, List.not_mem_nil, or_false] at h
      rcases h with rfl | rfl <;> exact not_ascii_ofNat (by omega) (by omega)
    · split at h
      · simp only [List.mem_cons, List.not_mem_nil, or_false] at h
        rcases h with rfl | rfl | rfl <;> exact not_ascii_ofNat (by omega) (by omega)
      · simp only [List.mem_cons, List.not_mem_nil, or_false] at h
        rcases h with rfl | rfl | rfl | rfl <;> exact not_ascii_ofNat (by omega) (by omega)
  rw [if_pos hone] at h ⊢
  rw [List.mem_singleton.mp h]

/-- **Bytes below 0x80 cut a text at a character**: what stands before and after one of them is a
text of its own. -/
theorem encode_split {m : List Char} {bs cs : List UInt8} {b : UInt8} (hb : b < 0x80)
    (h : encode m = bs ++ b :: cs) : ∃ m₁ m₂, encode m₁ = bs ∧ encode m₂ = cs := by
  induction m generalizing bs with
  | nil => exact absurd h (by simp)
  | cons c m ih =>
      rw [encode_cons] at h
      rcases List.append_eq_append_iff.mp h with ⟨rest, hbs, hrest⟩ | ⟨mid, hc, hmid⟩
      · obtain ⟨m₁, m₂, hm₁, hm₂⟩ := ih hrest
        exact ⟨c :: m₁, m₂, by rw [encode_cons, hm₁, hbs], hm₂⟩
      · rcases mid with - | ⟨d, mid⟩
        · obtain ⟨m₁, m₂, hm₁, hm₂⟩ := @ih [] hmid.symm
          refine ⟨[c], m₂, ?_, hm₂⟩
          simpa using hc
        · obtain ⟨rfl, hcs⟩ := List.cons.inj hmid
          -- the byte is in the first character, so it is the first character
          have hone := encodeChar_of_mem hb (hc ▸ List.mem_append_right bs List.mem_cons_self)
          rw [hc] at hone
          have hlen := congrArg List.length hone
          simp only [List.length_append, List.length_cons, List.length_nil] at hlen
          have hbs : bs = [] := List.eq_nil_of_length_eq_zero (by omega)
          have hmid' : mid = [] := List.eq_nil_of_length_eq_zero (by omega)
          refine ⟨[], m, by rw [hbs, encode_nil], ?_⟩
          rw [hcs, hmid']
          rfl

/-- **Bytes between two characters of one byte** are a text exactly when the whole is. -/
theorem fromUtf8_between {x y : Char} {b c : UInt8} (hx : String.utf8EncodeChar x = [b])
    (hb : b < 0x80) (hy : String.utf8EncodeChar y = [c]) (hc : c < 0x80) (as ds : List Char)
    (mid : List UInt8) :
    fromUtf8 (encode (as ++ [x]) ++ mid ++ encode (y :: ds))
      = (fromUtf8 mid).map fun m => as ++ [x] ++ m ++ y :: ds := by
  rcases hmid : fromUtf8 mid with - | m
  · rcases hall : fromUtf8 (encode (as ++ [x]) ++ mid ++ encode (y :: ds)) with - | text
    · rfl
    · -- cutting the whole at the two characters would give the middle as a text
      have htext := fromUtf8_eq_some_iff.mp hall
      have hcuts : encode (as ++ [x]) ++ mid ++ encode (y :: ds)
          = encode as ++ b :: (mid ++ c :: encode ds) := by
        simp [hx, hy]
      rw [hcuts] at htext
      obtain ⟨-, m₁, -, hm₁⟩ := encode_split hb htext
      obtain ⟨m₂, -, hm₂, -⟩ := encode_split hc hm₁
      rw [fromUtf8_eq_some_iff.mpr hm₂] at hmid
      cases hmid
  · rw [Option.map_some, fromUtf8_eq_some_iff, encode_append, encode_append,
      fromUtf8_eq_some_iff.mp hmid]

end Utf8
