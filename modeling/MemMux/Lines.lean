/-
MemMux/Lines.lean

Reading lines from a stream of bytes that arrives in chunks.

`cut` takes a text apart at `\n`, `\r` and `\r\n`.  `Reader` does the same to bytes, decoding
them on the way; a reader that pauses after a chunk forgets that it was inside a character,
or right after a carriage return.  `Clean` says when it may pause between two parts of a
stream, and `readChunks_eq_iff` that reading in chunks gives the lines of the whole stream
exactly if every pause is clean.

The two readings are compared byte by byte.  What a pause does wrong never
goes away: it makes one more line, or one more U+FFFD, and the `weight` of the lines read
so far stays ahead from then on (`Ahead`).
-/
import Mathlib.Algebra.GroupWithZero.Nat
import Mathlib.Data.List.Count
import MemMux.Utf8

namespace Lines

open Utf8

/-! ### Lines of a text -/

/-- The lines that end in a text, and what follows the last of them.  `line` is the line under
way, and `cr` says that the text comes right after a carriage return. -/
def cut : List Char → Bool → List Char → List (List Char) × List Char
  | line, _, [] => ([], line)
  | line, cr, c :: cs =>
      if c = '\n' then
        if cr then cut line false cs else (line :: (cut [] false cs).1, (cut [] false cs).2)
      else if c = '\r' then (line :: (cut [] true cs).1, (cut [] true cs).2)
      else cut (line ++ [c]) false cs

/-! ### Reading bytes -/

/-- A reader of lines: the character and the line under way, whether the last byte was a carriage
return, and the lines read so far. -/
structure Reader where
  dec : State
  line : List Char
  cr : Bool
  out : List (List Char)

namespace Reader

/-- At the start of a stream. -/
def start : Reader := ⟨none, [], false, []⟩

/-- One byte. -/
def byte (r : Reader) (b : UInt8) : Reader :=
  if b = 0x0A then
    if r.cr then { r with cr := false }
    else ⟨none, [], false, r.out ++ [r.line ++ finish r.dec]⟩
  else if b = 0x0D then ⟨none, [], true, r.out ++ [r.line ++ finish r.dec]⟩
  else ⟨(feed r.dec b).2, r.line ++ (feed r.dec b).1, false, r.out⟩

def bytes (r : Reader) (bs : List UInt8) : Reader := bs.foldl byte r

/-- The end of a chunk. -/
def pause (r : Reader) : Reader := ⟨none, r.line ++ finish r.dec, false, r.out⟩

def chunk (r : Reader) (bs : List UInt8) : Reader := (r.bytes bs).pause

def chunks (r : Reader) (cs : List (List UInt8)) : Reader := cs.foldl chunk r

@[simp] theorem bytes_nil (r : Reader) : r.bytes [] = r := rfl

@[simp] theorem bytes_cons (r : Reader) (b : UInt8) (bs : List UInt8) :
    r.bytes (b :: bs) = (r.byte b).bytes bs := rfl

theorem bytes_append (r : Reader) (as bs : List UInt8) :
    r.bytes (as ++ bs) = (r.bytes as).bytes bs := List.foldl_append

@[simp] theorem chunks_nil (r : Reader) : r.chunks [] = r := rfl

@[simp] theorem chunks_cons (r : Reader) (c : List UInt8) (cs : List (List UInt8)) :
    r.chunks (c :: cs) = ((r.bytes c).pause).chunks cs := rfl

end Reader

/-- The lines of a stream that arrives in chunks. -/
def readChunks (cs : List (List UInt8)) : List (List Char) := (Reader.start.chunks cs).out

/-! ### Where a reader may pause -/

/-- Whether a byte ends a line. -/
def endsLine (b : UInt8) : Bool := b = 0x0A || b = 0x0D

/-- **A reader may pause between `as` and `bs`**: not between a carriage return and its line feed,
nor inside a character, unless no line ends any more. -/
def Clean (as bs : List UInt8) : Prop :=
  (as.getLast? = some 0x0D → bs.head? ≠ some 0x0A) ∧
    ∀ p ∈ (feedAll none as).2, ∀ b ∈ bs.head?, p.accepts b → ∀ c ∈ bs, endsLine c = false

instance (as bs : List UInt8) : Decidable (Clean as bs) := inferInstanceAs (Decidable (_ ∧ _))

/-- Every chunk ends where the reader may pause; `as` came before the first. -/
def CleanSplit : List UInt8 → List (List UInt8) → Prop
  | _, [] => True
  | as, c :: cs => Clean (as ++ c) cs.flatten ∧ CleanSplit (as ++ c) cs

instance : ∀ (as : List UInt8) (cs : List (List UInt8)), Decidable (CleanSplit as cs)
  | _, [] => inferInstanceAs (Decidable True)
  | as, c :: cs =>
      have : Decidable (CleanSplit (as ++ c) cs) := instDecidableCleanSplit (as ++ c) cs
      inferInstanceAs (Decidable (_ ∧ _))

/-! ### Steps of a reader -/

theorem lt_of_endsLine {b : UInt8} (hb : endsLine b) : b < 0x80 := by
  simp only [endsLine, Bool.or_eq_true, decide_eq_true_eq] at hb
  rcases hb with rfl | rfl <;> decide

theorem not_accepts_of_endsLine {b : UInt8} (hb : endsLine b) (p : Partial) : ¬ p.accepts b :=
  fun h => absurd (lt_of_endsLine hb) (UInt8.not_lt.mpr (Partial.not_ascii h).1)

namespace Reader

/-- Right after a carriage return no line and no character is under way. -/
def AtLineStart (r : Reader) : Prop := r.cr = true → r.line = [] ∧ r.dec = none

theorem atLineStart_byte (r : Reader) (b : UInt8) : (r.byte b).AtLineStart := by
  intro hcr
  unfold byte at hcr ⊢
  -- only a carriage return leaves `cr` set, and it ends the line
  split_ifs at hcr ⊢
  exact ⟨rfl, rfl⟩

theorem atLineStart_bytes {r : Reader} (h : r.AtLineStart) (bs : List UInt8) :
    (r.bytes bs).AtLineStart := by
  induction bs generalizing r with
  | nil => exact h
  | cons b bs ih => exact ih (atLineStart_byte r b)

theorem atLineStart_pause (r : Reader) : r.pause.AtLineStart := fun h => nomatch h

theorem atLineStart_start : start.AtLineStart := fun h => nomatch h

/-- The character under way is the one the stream so far leaves open. -/
theorem dec_byte {r : Reader} (h : r.AtLineStart) (b : UInt8) :
    (r.byte b).dec = (feed r.dec b).2 := by
  unfold byte
  split_ifs with h1 h2 h3
  · rw [h1, feed_ascii _ (by decide)]
    exact (h h2).2
  · rw [h1, feed_ascii _ (by decide)]
  · rw [h3, feed_ascii _ (by decide)]
  · rfl

theorem dec_bytes {r : Reader} (h : r.AtLineStart) (bs : List UInt8) :
    (r.bytes bs).dec = (feedAll r.dec bs).2 := by
  induction bs generalizing r with
  | nil => rfl
  | cons b bs ih =>
      rw [bytes_cons, ih (atLineStart_byte r b), dec_byte h b]
      rfl

/-- A reader is after a carriage return if the last byte was one. -/
theorem cr_byte (r : Reader) (b : UInt8) : (r.byte b).cr = decide (b = 0x0D) := by
  unfold byte
  split_ifs with h1 h2 h3
  · simp [h1]
  · simp [h1]
  · simp [h3]
  · simp [h3]

theorem cr_bytes_start (as : List UInt8) :
    (start.bytes as).cr = true ↔ as.getLast? = some 0x0D := by
  rcases List.eq_nil_or_concat as with rfl | ⟨as, b, rfl⟩
  · simp [start]
  · rw [List.concat_eq_append, bytes_append, bytes_cons, bytes_nil, cr_byte]
    simp

/-- Without a line end no line is read. -/
theorem out_byte {r : Reader} {b : UInt8} (hb : endsLine b = false) : (r.byte b).out = r.out := by
  simp only [endsLine, Bool.or_eq_false_iff, decide_eq_false_iff_not] at hb
  simp [byte, hb.1, hb.2]

theorem out_bytes {r : Reader} {bs : List UInt8} (hbs : ∀ b ∈ bs, endsLine b = false) :
    (r.bytes bs).out = r.out := by
  induction bs generalizing r with
  | nil => rfl
  | cons b bs ih =>
      have hboth := List.forall_mem_cons.mp hbs
      rw [bytes_cons, ih hboth.2, out_byte hboth.1]

theorem out_chunks {r : Reader} {cs : List (List UInt8)}
    (hcs : ∀ b ∈ cs.flatten, endsLine b = false) : (r.chunks cs).out = r.out := by
  induction cs generalizing r with
  | nil => rfl
  | cons c cs ih =>
      rw [List.flatten_cons] at hcs
      have hboth := List.forall_mem_append.mp hcs
      rw [chunks_cons, ih hboth.2]
      exact out_bytes hboth.1

@[simp] theorem pause_pause (r : Reader) : r.pause.pause = r.pause := by simp [pause, finish]

/-- **A clean pause goes unnoticed by the next byte.** -/
theorem byte_pause {r : Reader} {b : UInt8} (hcr : r.cr = true → b ≠ 0x0A)
    (hdec : ∀ p ∈ r.dec, ¬ p.accepts b) : r.pause.byte b = r.byte b := by
  have hfeed : (feed none b).2 = (feed r.dec b).2
      ∧ finish r.dec ++ (feed none b).1 = (feed r.dec b).1 := by
    cases hd : r.dec with
    | none => exact ⟨rfl, rfl⟩
    | some p =>
        have hp : ¬ p.accepts b := hdec p (by rw [hd]; rfl)
        simp [feed, hp, finish]
  by_cases h1 : b = 0x0A
  · have hr : r.cr = false := by
      rw [← Bool.not_eq_true]
      exact fun h => hcr h h1
    simp [byte, pause, h1, hr, finish]
  · by_cases h2 : b = 0x0D
    · simp [byte, pause, h2, finish]
    · simp [byte, pause, h1, h2, hfeed.1, ← hfeed.2]

end Reader

open Reader

theorem clean_nil (as : List UInt8) : Clean as [] :=
  ⟨fun _ h => (nomatch h), fun _ _ _ h => (nomatch h)⟩

/-- Where no line ends any more, a reader may pause anywhere. -/
theorem clean_of_quiet (as : List UInt8) {bs : List UInt8} (h : ∀ b ∈ bs, endsLine b = false) :
    Clean as bs :=
  ⟨fun _ hb => absurd (h _ (List.mem_of_mem_head? hb)) (by decide), fun _ _ _ _ _ => h⟩

theorem cleanSplit_of_quiet (as : List UInt8) {cs : List (List UInt8)}
    (h : ∀ b ∈ cs.flatten, endsLine b = false) : CleanSplit as cs := by
  induction cs generalizing as with
  | nil => trivial
  | cons c cs ih =>
      rw [List.flatten_cons] at h
      have htail := (List.forall_mem_append.mp h).2
      exact ⟨clean_of_quiet _ htail, ih _ htail⟩

/-! ### Progress -/

namespace Reader

/-- What `r` has read is still there in `s`: its lines, and the line under way in a line of `s`. -/
def Grows (r s : Reader) : Prop :=
  r.out <+: s.out ∧ ∃ l, (l ∈ s.out ∨ l = s.line) ∧ r.line <+: l

theorem Grows.refl (r : Reader) : Grows r r := ⟨List.prefix_rfl, r.line, .inr rfl, List.prefix_rfl⟩

theorem Grows.trans {r s t : Reader} (h : Grows r s) (h' : Grows s t) : Grows r t := by
  obtain ⟨hout, l, hl, hline⟩ := h
  obtain ⟨hout', l', hl', hline'⟩ := h'
  refine ⟨hout.trans hout', ?_⟩
  rcases hl with hl | rfl
  · exact ⟨l, .inl (hout'.subset hl), hline⟩
  · exact ⟨l', hl', hline.trans hline'⟩

theorem grows_byte (r : Reader) (b : UInt8) : Grows r (r.byte b) := by
  unfold byte
  split_ifs
  · exact Grows.refl r
  · exact ⟨List.prefix_append _ _, _, .inl (List.mem_append_right _ List.mem_cons_self),
      List.prefix_append _ _⟩
  · exact ⟨List.prefix_append _ _, _, .inl (List.mem_append_right _ List.mem_cons_self),
      List.prefix_append _ _⟩
  · exact ⟨List.prefix_rfl, _, .inr rfl, List.prefix_append _ _⟩

theorem grows_chunk (r : Reader) (bs : List UInt8) : Grows r (r.chunk bs) := by
  have hpause : Grows (r.bytes bs) (r.bytes bs).pause :=
    ⟨List.prefix_rfl, _, .inr rfl, List.prefix_append _ _⟩
  refine Grows.trans ?_ hpause
  induction bs generalizing r with
  | nil => exact Grows.refl r
  | cons b bs ih =>
      exact (grows_byte r b).trans
        (ih (r.byte b) ⟨List.prefix_rfl, _, .inr rfl, List.prefix_append _ _⟩)

theorem grows_chunks (r : Reader) (cs : List (List UInt8)) : Grows r (r.chunks cs) := by
  induction cs generalizing r with
  | nil => exact Grows.refl r
  | cons c cs ih => exact (grows_chunk r c).trans (ih _)

end Reader

/-! ### Reading bytes is cutting the decoded text -/

theorem cut_append {cs : List Char} (h : ∀ c ∈ cs, c ≠ '\n' ∧ c ≠ '\r') (line : List Char) (cr : Bool)
    (rest : List Char) : cut line cr (cs ++ rest) = cut (line ++ cs) (cr && cs.isEmpty) rest := by
  induction cs generalizing line cr with
  | nil => simp
  | cons c cs ih =>
      have hc := h c List.mem_cons_self
      rw [List.cons_append, cut, if_neg hc.1, if_neg hc.2,
        ih fun d hd => h d (List.mem_cons_of_mem c hd)]
      simp

/-- What is decoded from bytes that end no line ends none. -/
theorem feed_plain (s : State) {b : UInt8} (hb : endsLine b = false) :
    ∀ c ∈ (feed s b).1, c ≠ '\n' ∧ c ≠ '\r' := by
  intro c hc
  simp only [endsLine, Bool.or_eq_false_iff, decide_eq_false_iff_not] at hb
  by_cases hlow : b < 0x80
  · rw [feed_ascii s hlow] at hc
    rcases List.mem_append.mp hc with hc | hc
    · cases s with
      | none => exact nomatch hc
      | some p =>
          rw [List.mem_singleton.mp hc]
          decide
    · rw [List.mem_singleton.mp hc]
      have hlf : b.toNat ≠ '\n'.toNat := fun he => hb.1 (UInt8.toNat_inj.mp he)
      have hcr : b.toNat ≠ '\r'.toNat := fun he => hb.2 (UInt8.toNat_inj.mp he)
      exact ⟨fun he => toNat_ofNat_ne (by decide) hlf (congrArg Char.toNat he),
        fun he => toNat_ofNat_ne (by decide) hcr (congrArg Char.toNat he)⟩
  · have hwide : 0x80 ≤ b := UInt8.not_lt.mp hlow
    constructor
    · rintro rfl
      exact not_mem_feed s hwide (by decide) hc
    · rintro rfl
      exact not_mem_feed s hwide (by decide) hc

theorem cut_finish (line : List Char) (cr : Bool) (d : State) :
    cut line cr (finish d) = ([], line ++ finish d) := by
  cases d with
  | none => simp [cut]
  | some p => rfl

/-- The end of a line, in a text whose last character was decoded right before it. -/
theorem cut_end (line : List Char) (cr : Bool) (d : State) {c : Char} (h : c = '\n' ∨ c = '\r')
    (hcr : c = '\n' → d = none → cr = false) (rest : List Char) :
    cut line cr (finish d ++ c :: rest)
      = ((line ++ finish d) :: (cut [] (c == '\r') rest).1, (cut [] (c == '\r') rest).2) := by
  have hrep : replacement ≠ '\n' ∧ replacement ≠ '\r' := by decide
  rcases h with rfl | rfl
  · cases d with
    | none => simp [cut, hcr rfl rfl]
    | some p => simp [cut, hrep]
  · cases d with
    | none => simp [cut]
    | some p => simp [cut, hrep]

/-- **A reader cuts the decoded text.** -/
theorem cut_bytes {r : Reader} (h : r.AtLineStart) {cr : Bool} (hcr : r.dec = none → cr = r.cr)
    (bs : List UInt8) :
    (r.bytes bs).pause.out
        = r.out ++ (cut r.line cr ((feedAll r.dec bs).1 ++ finish (feedAll r.dec bs).2)).1
      ∧ (r.bytes bs).pause.line
        = (cut r.line cr ((feedAll r.dec bs).1 ++ finish (feedAll r.dec bs).2)).2 := by
  induction bs generalizing r cr with
  | nil =>
      rw [feedAll_nil, List.nil_append, cut_finish]
      exact ⟨(List.append_nil _).symm, rfl⟩
  | cons b bs ih =>
      have hnext := atLineStart_byte r b
      have hdec := dec_byte h b
      have htext : (feedAll r.dec (b :: bs)).1 ++ finish (feedAll r.dec (b :: bs)).2
          = (feed r.dec b).1
            ++ ((feedAll (r.byte b).dec bs).1 ++ finish (feedAll (r.byte b).dec bs).2) := by
        rw [hdec, ← List.append_assoc]
        rfl
      rw [htext, bytes_cons]
      cases hb : endsLine b with
      | false =>
          rw [cut_append (feed_plain r.dec hb)]
          have hbyte : (r.byte b).line = r.line ++ (feed r.dec b).1 ∧ (r.byte b).out = r.out
              ∧ (r.byte b).cr = false := by
            simp only [endsLine, Bool.or_eq_false_iff, decide_eq_false_iff_not] at hb
            simp [byte, hb.1, hb.2]
          rw [← hbyte.1, ← hbyte.2.1]
          refine ih hnext fun hnone => ?_
          rw [hbyte.2.2, Bool.and_eq_false_iff]
          refine .inr (eq_false_of_ne_true fun hempty => ?_)
          exact feed_silent (List.isEmpty_iff.mp hempty) (hdec ▸ hnone)
      | true =>
          rw [feed_ascii r.dec (lt_of_endsLine hb), List.append_assoc, List.singleton_append]
          simp only [endsLine, Bool.or_eq_true, decide_eq_true_eq] at hb
          by_cases hskip : r.cr = true ∧ b = 0x0A
          · -- the line feed of a carriage return
            obtain ⟨hr, rfl⟩ := hskip
            have hbyte : r.byte 0x0A = ⟨r.dec, r.line, false, r.out⟩ := by simp [byte, hr]
            have hflag : cr = true := by rw [hcr (h hr).2, hr]
            have hcut : ∀ rest, cut r.line cr (finish r.dec ++ '\n' :: rest)
                = cut r.line false rest := fun rest => by
              rw [(h hr).2, hflag]
              simp [cut]
            rw [hbyte] at hnext ⊢
            exact (hcut _).symm ▸ ih hnext fun _ => rfl
          · have hbyte : r.byte b = ⟨none, [], Char.ofNat b.toNat == '\r',
                r.out ++ [r.line ++ finish r.dec]⟩ := by
              rcases hb with rfl | rfl
              · have hr : r.cr = false := eq_false_of_ne_true fun hr => hskip ⟨hr, rfl⟩
                simp [byte, hr]
              · simp [byte]
            have hend : Char.ofNat b.toNat = '\n' ∨ Char.ofNat b.toNat = '\r' := by
              rcases hb with rfl | rfl
              · exact .inl rfl
              · exact .inr rfl
            have hflag : Char.ofNat b.toNat = '\n' → r.dec = none → cr = false := fun hc hd => by
              have hlf : b = 0x0A := hb.resolve_right fun hb => by
                rw [hb] at hc
                exact absurd hc (by decide)
              rw [hcr hd]
              exact eq_false_of_ne_true fun hr => hskip ⟨hr, hlf⟩
            rw [cut_end r.line cr r.dec hend hflag]
            have hrest := ih hnext fun _ => (rfl : (r.byte b).cr = (r.byte b).cr)
            rw [hbyte] at hrest ⊢
            exact ⟨hrest.1.trans (by rw [List.append_assoc, List.singleton_append]), hrest.2⟩

/-- **A reader that pauses after a chunk has cut the text of that chunk.** -/
theorem chunk_eq {r : Reader} (hdec : r.dec = none) (hcr : r.cr = false) (bs : List UInt8) :
    r.chunk bs = ⟨none, (cut r.line false (fromUtf8Lossy bs)).2, false,
      r.out ++ (cut r.line false (fromUtf8Lossy bs)).1⟩ := by
  have hstart : r.AtLineStart := fun h => by
    rw [hcr] at h
    cases h
  obtain ⟨hout, hline⟩ := cut_bytes hstart (fun _ => hcr.symm) bs
  rw [hdec] at hout hline
  show (⟨none, (r.bytes bs).pause.line, false, (r.bytes bs).pause.out⟩ : Reader) = _
  rw [hout, hline]
  rfl

/-! ### Clean pauses -/

/-- **A reader whose pauses are clean reads the lines of the whole stream.** -/
theorem out_chunks_of_clean {as : List UInt8} {cs : List (List UInt8)}
    (h : Clean as cs.flatten) (hs : CleanSplit as cs) :
    ((start.bytes as).pause.chunks cs).out = (start.bytes (as ++ cs.flatten)).out := by
  induction cs generalizing as with
  | nil => simp [pause]
  | cons c cs ih =>
      have hrest := ih hs.1 hs.2
      rw [List.append_assoc, ← List.flatten_cons] at hrest
      rcases c with - | ⟨b, c⟩
      · rw [List.append_nil] at hrest
        rw [chunks_cons, bytes_nil, pause_pause, hrest]
      · by_cases hin : ∃ p ∈ (start.bytes as).dec, p.accepts b
        · -- inside a character: no line ends any more, on either side
          obtain ⟨p, hp, hb⟩ := hin
          rw [dec_bytes atLineStart_start] at hp
          have hquiet := h.2 p hp b rfl hb
          rw [out_chunks hquiet, bytes_append, out_bytes hquiet]
          rfl
        · have hcr : (start.bytes as).cr = true → b ≠ 0x0A := fun hcr hb =>
            h.1 ((cr_bytes_start as).mp hcr) (congrArg some hb)
          have hbyte := byte_pause hcr fun p hp hb => hin ⟨p, hp, hb⟩
          rw [chunks_cons, bytes_cons, hbyte, ← bytes_cons, ← bytes_append, hrest]

/-! ### Pauses that are not clean -/

/-- How much there is in some lines: the lines themselves, and the U+FFFDs in them. -/
def weight (ls : List (List Char)) : Nat := (ls.map fun l => 1 + l.count replacement).sum

/-- The weight of what a reader has read, the line under way included. -/
def Reader.load (r : Reader) : Nat := weight r.out + r.line.count replacement

/-- What a reader that stands inside a character owes to one that has given it up. -/
def debt (u v : Reader) : Nat := (finish u.dec).length - (finish v.dec).length

/-- **The reader `v` has paused where `u` has not, and is ahead by `k`.** -/
structure Ahead (k : Nat) (u v : Reader) : Prop where
  dec : v.dec = u.dec ∨ v.dec = none
  cr : v.cr = true → u.cr = true
  atStart : u.AtLineStart
  atStart' : v.AtLineStart
  load : u.load + k + debt u v ≤ v.load

@[simp] theorem count_finish (d : State) : (finish d).count replacement = (finish d).length := by
  cases d <;> rfl

theorem load_end (r : Reader) (cr : Bool) :
    Reader.load ⟨none, [], cr, r.out ++ [r.line ++ finish r.dec]⟩
      = r.load + 1 + (finish r.dec).length := by
  simp [Reader.load, weight]
  omega

theorem load_feed (r : Reader) (b : UInt8) :
    Reader.load ⟨(feed r.dec b).2, r.line ++ (feed r.dec b).1, false, r.out⟩
      = r.load + (feed r.dec b).1.count replacement := by
  simp [Reader.load, Nat.add_assoc]

/-- What a byte that a paused reader cannot use does to the one that has not paused. -/
theorem feed_accepted {p : Partial} {b : UInt8} (h : p.accepts b) :
    (feed (some p) b).1.count replacement + (finish (feed (some p) b).2).length ≤ 1 := by
  unfold feed
  dsimp only
  rw [dif_pos h]
  split
  · exact Nat.add_le_add_right List.count_le_length 0
  · exact Nat.le_refl _

/-- A byte that a pause has kept from its place: the line feed of a carriage return, or the next
byte of a character. -/
def Stray (u v : Reader) (b : UInt8) : Prop :=
  (u.cr = true ∧ v.cr = false ∧ b = 0x0A) ∨ (v.dec = none ∧ ∃ p ∈ u.dec, p.accepts b)

theorem dec_byte_of_ahead {k : Nat} {u v : Reader} (h : Ahead k u v) (b : UInt8) :
    (v.byte b).dec = (u.byte b).dec ∨ (v.byte b).dec = none := by
  rw [dec_byte h.atStart, dec_byte h.atStart']
  rcases h.dec with hd | hd
  · exact .inl (by rw [hd])
  · rw [hd]
    rcases hu : u.dec with - | p
    · exact .inl rfl
    · by_cases hp : p.accepts b
      · exact .inr (by rw [feed, lead_continuation (Partial.not_ascii hp)])
      · exact .inl (by simp [feed, hp])

theorem load_byte_end {r : Reader} {b : UInt8} (hb : endsLine b) :
    (r.byte b).load
      = r.load + (if r.cr = true ∧ b = 0x0A then 0 else 1 + (finish r.dec).length) := by
  have hline := load_end r
  simp only [endsLine, Bool.or_eq_true, decide_eq_true_eq] at hb
  rcases hb with rfl | rfl
  · by_cases hcr : r.cr = true
    · simp [byte, hcr, Reader.load]
    · simp [byte, hcr, hline, Nat.add_assoc]
  · simp [byte, hline, Nat.add_assoc]

theorem load_byte_other {r : Reader} {b : UInt8} (hb : endsLine b = false) :
    (r.byte b).load = r.load + (feed r.dec b).1.count replacement := by
  simp only [endsLine, Bool.or_eq_false_iff, decide_eq_false_iff_not] at hb
  rw [byte, if_neg hb.1, if_neg hb.2, load_feed]

theorem Ahead.load_end {k gain : Nat} {u v : Reader} {b : UInt8} (h : Ahead k u v) (hle : gain ≤ 1)
    (hgain : gain = 1 → Stray u v b) (hb : endsLine b) :
    (u.byte b).load + (k + gain) ≤ (v.byte b).load := by
  have hload := h.load
  have hfin : (finish v.dec).length = (finish u.dec).length ∨ (finish v.dec).length = 0 :=
    h.dec.imp (fun hd => by rw [hd]) fun hd => by rw [hd]; rfl
  have hstray : gain = 1 → u.cr = true ∧ v.cr = false ∧ b = 0x0A := fun hg =>
    (hgain hg).resolve_right fun ⟨_, p, _, hp⟩ => not_accepts_of_endsLine hb p hp
  rw [load_byte_end hb, load_byte_end hb]
  unfold debt at hload
  by_cases hu : u.cr = true ∧ b = 0x0A
  · rw [(h.atStart hu.1).2] at hload
    rw [if_pos hu]
    by_cases hv : v.cr = true
    · have hg : gain ≠ 1 := fun hg => by
        rw [(hstray hg).2.1] at hv
        cases hv
      omega
    · rw [if_neg fun hv' => hv hv'.1]
      omega
  · have hg : gain ≠ 1 := fun hg => hu ⟨(hstray hg).1, (hstray hg).2.2⟩
    rw [if_neg hu, if_neg fun hv => hu ⟨h.cr hv.1, hv.2⟩]
    omega

theorem Ahead.load_other {k gain : Nat} {u v : Reader} {b : UInt8} (h : Ahead k u v) (hle : gain ≤ 1)
    (hgain : gain = 1 → Stray u v b) (hb : endsLine b = false) :
    (u.byte b).load + (k + gain) + debt (u.byte b) (v.byte b) ≤ (v.byte b).load := by
  have hload := h.load
  have hstray : gain = 1 → v.dec = none ∧ ∃ p ∈ u.dec, p.accepts b := fun hg =>
    (hgain hg).resolve_left fun ⟨_, _, hb'⟩ => by
      rw [hb'] at hb
      cases hb
  rw [load_byte_other hb, load_byte_other hb]
  unfold debt at hload ⊢
  rw [dec_byte h.atStart, dec_byte h.atStart']
  rcases hu : u.dec with - | p
  · -- both are between characters
    have hv : v.dec = none := h.dec.elim (fun hd => by rw [hd, hu]) id
    have hg : gain ≠ 1 := fun hg => by
      obtain ⟨p, hp, -⟩ := (hstray hg).2
      rw [hu] at hp
      cases hp
    rw [hu, hv] at hload
    rw [hv]
    omega
  · by_cases hv : v.dec = none
    · by_cases hp : p.accepts b
      · -- `u` uses the byte, `v` makes a U+FFFD of it
        have hone : (lead b).1.count replacement = 1 ∧ finish (lead b).2 = [] := by
          rw [lead_continuation (Partial.not_ascii hp)]
          decide
        have hle' := feed_accepted hp
        rw [hu, hv] at hload
        rw [hv]
        show _ + (k + gain) + (_ - (finish (lead b).2).length) ≤ _ + (lead b).1.count replacement
        rw [hone.1, hone.2]
        simp only [finish_some, finish_none, List.length_singleton, List.length_nil] at hload ⊢
        omega
      · have hg : gain ≠ 1 := fun hg => by
          obtain ⟨q, hq, hqb⟩ := (hstray hg).2
          rw [hu] at hq
          obtain rfl := Option.some.inj hq
          exact hp hqb
        have hfeed : feed (some p) b = (replacement :: (lead b).1, (lead b).2) := by
          simp [feed, hp]
        rw [hu, hv] at hload
        rw [hv, hfeed]
        show _ + (replacement :: (lead b).1).count replacement + _
          + ((finish (lead b).2).length - (finish (lead b).2).length)
          ≤ _ + (lead b).1.count replacement
        simp only [finish_some, finish_none, List.length_singleton, List.length_nil,
          List.count_cons_self] at hload ⊢
        omega
    · have hd : v.dec = some p := hu ▸ h.dec.resolve_right hv
      have hg : gain ≠ 1 := fun hg => hv (hstray hg).1
      rw [hu, hd] at hload
      rw [hd]
      omega
/-- **The lead is never lost**, and a stray byte adds to it. -/
theorem Ahead.byte {k gain : Nat} {u v : Reader} {b : UInt8} (h : Ahead k u v) (hle : gain ≤ 1)
    (hgain : gain = 1 → Stray u v b) : Ahead (k + gain) (u.byte b) (v.byte b) := by
  refine ⟨dec_byte_of_ahead h b, ?_, atLineStart_byte u b, atLineStart_byte v b, ?_⟩
  · rw [cr_byte, cr_byte]
    exact id
  · cases hb : endsLine b with
    | false => exact h.load_other hle hgain hb
    | true =>
        have hnone : (u.byte b).dec = none := by
          rw [dec_byte h.atStart, feed_ascii _ (lt_of_endsLine hb)]
        rw [debt, hnone, finish_none, List.length_nil, Nat.zero_sub]
        exact h.load_end hle hgain hb

theorem Ahead.bytes {k : Nat} {u v : Reader} (h : Ahead k u v) (bs : List UInt8) :
    Ahead k (u.bytes bs) (v.bytes bs) := by
  induction bs generalizing u v with
  | nil => exact h
  | cons b bs ih => exact ih (h.byte (Nat.zero_le 1) fun h0 => nomatch h0)

theorem Ahead.pause {k : Nat} {u v : Reader} (h : Ahead k u v) : Ahead k u v.pause := by
  refine ⟨.inr rfl, fun hcr => (nomatch hcr), h.atStart, atLineStart_pause v, ?_⟩
  have hload := h.load
  have hpause : v.pause.load = v.load + (finish v.dec).length := by
    simp [Reader.load, Reader.pause, Nat.add_assoc]
  show u.load + k + ((finish u.dec).length - 0) ≤ _
  rw [hpause]
  unfold debt at hload
  omega

theorem ahead_refl {u : Reader} (h : u.AtLineStart) : Ahead 0 u u :=
  ⟨.inl rfl, id, h, h, by simp [debt]⟩

theorem line_byte {r : Reader} {b : UInt8} (h : r.AtLineStart) (hb : endsLine b) :
    (r.byte b).line = [] := by
  simp only [endsLine, Bool.or_eq_true, decide_eq_true_eq] at hb
  rcases hb with rfl | rfl
  · by_cases hcr : r.cr = true
    · simp [byte, hcr, (h hcr).1]
    · simp [byte, hcr]
  · simp [byte]

/-- **The lead shows in the lines read**, once a line has ended. -/
theorem Ahead.weight_bytes {k : Nat} {u v : Reader} (h : Ahead k u v) {bs : List UInt8}
    (hend : (u.line = [] ∧ v.line = []) ∨ ∃ b ∈ bs, endsLine b) :
    weight (u.bytes bs).out + k ≤ weight (v.bytes bs).out := by
  induction bs generalizing u v with
  | nil =>
      obtain ⟨hu, hv⟩ := hend.resolve_right fun ⟨_, hb, _⟩ => nomatch hb
      have hload := h.load
      rw [Reader.load, Reader.load, hu, hv, List.count_nil] at hload
      exact Nat.le_trans (Nat.le_add_right _ _) hload
  | cons b bs ih =>
      have hstep : Ahead k (u.byte b) (v.byte b) := h.byte (Nat.zero_le 1) fun h0 => nomatch h0
      cases hb : endsLine b with
      | true => exact ih hstep (.inl ⟨line_byte h.atStart hb, line_byte h.atStart' hb⟩)
      | false =>
          by_cases hrest : ∃ c ∈ bs, endsLine c
          · exact ih hstep (.inr hrest)
          · -- no line ends any more: what is read stays
            have hquiet : ∀ c ∈ bs, endsLine c = false := fun c hc =>
              eq_false_of_ne_true fun he => hrest ⟨c, hc, he⟩
            rw [bytes_cons, bytes_cons, out_bytes hquiet, out_bytes hquiet, out_byte hb, out_byte hb]
            have hnone : ¬ ∃ c ∈ b :: bs, endsLine c := by
              rintro ⟨c, hc, he⟩
              rcases List.mem_cons.mp hc with rfl | hc
              · rw [hb] at he
                cases he
              · exact hrest ⟨c, hc, he⟩
            obtain ⟨hu, hv⟩ := hend.resolve_right hnone
            have hload := h.load
            rw [Reader.load, Reader.load, hu, hv, List.count_nil] at hload
            exact Nat.le_trans (Nat.le_add_right _ _) hload

theorem Ahead.weight_chunks {k : Nat} {u v : Reader} (h : Ahead k u v) {cs : List (List UInt8)}
    (hend : (u.line = [] ∧ v.line = []) ∨ ∃ b ∈ cs.flatten, endsLine b) :
    weight (u.bytes cs.flatten).out + k ≤ weight (v.chunks cs).out := by
  induction cs generalizing u v with
  | nil => exact h.weight_bytes hend
  | cons c cs ih =>
      rw [List.flatten_cons, bytes_append, chunks_cons]
      by_cases hrest : ∃ b ∈ cs.flatten, endsLine b
      · exact ih (h.bytes c).pause (.inr hrest)
      · have hquiet : ∀ b ∈ cs.flatten, endsLine b = false := fun b hb =>
          eq_false_of_ne_true fun he => hrest ⟨b, hb, he⟩
        rw [out_bytes hquiet, out_chunks hquiet]
        refine h.weight_bytes (hend.imp_right ?_)
        rintro ⟨b, hb, he⟩
        rcases List.mem_append.mp hb with hb | hb
        · exact ⟨b, hb, he⟩
        · exact absurd ⟨b, hb, he⟩ hrest

/-- **A pause that is not clean shows in the lines.** -/
theorem weight_of_not_clean {as : List UInt8} {cs : List (List UInt8)}
    (h : ¬ (Clean as cs.flatten ∧ CleanSplit as cs)) :
    weight (start.bytes (as ++ cs.flatten)).out + 1
      ≤ weight ((start.bytes as).pause.chunks cs).out := by
  induction cs generalizing as with
  | nil => exact absurd ⟨clean_nil as, trivial⟩ h
  | cons c cs ih =>
      have hu : (start.bytes as).AtLineStart := atLineStart_bytes atLineStart_start as
      rcases c with - | ⟨b, c⟩
      · -- an empty chunk is no pause
        rw [chunks_cons, bytes_nil, pause_pause]
        refine ih fun hc => h ⟨hc.1, ?_⟩
        rw [CleanSplit, List.append_nil]
        exact hc
      · have hdec : (start.bytes as).dec = (feedAll none as).2 := dec_bytes atLineStart_start as
        by_cases hstray : Stray (start.bytes as) (start.bytes as).pause b
        · -- a stray byte without a line end to come would be clean after all
          have hnoisy : ∃ x ∈ ((b :: c) :: cs).flatten, endsLine x := by
            by_contra hno
            have hquiet : ∀ x ∈ ((b :: c) :: cs).flatten, endsLine x = false := fun x hx =>
              eq_false_of_ne_true fun he => hno ⟨x, hx, he⟩
            exact h ⟨clean_of_quiet _ hquiet, cleanSplit_of_quiet _ hquiet⟩
          have hgain := (ahead_refl hu).pause.byte (Nat.le_refl 1) fun _ => hstray
          have hend : (((start.bytes as).byte b).line = [] ∧ ((start.bytes as).pause.byte b).line = [])
              ∨ ∃ x ∈ (c :: cs).flatten, endsLine x := by
            obtain ⟨x, hx, he⟩ := hnoisy
            rcases List.mem_cons.mp hx with rfl | hx
            · exact .inl ⟨line_byte hu he, line_byte (atLineStart_pause _) he⟩
            · exact .inr ⟨x, hx, he⟩
          rw [bytes_append]
          exact hgain.weight_chunks hend
        · have hcr : (start.bytes as).cr = true → b ≠ 0x0A := fun hcr hb =>
            hstray (.inl ⟨hcr, rfl, hb⟩)
          have hin : ∀ p ∈ (start.bytes as).dec, ¬ p.accepts b := fun p hp hb =>
            hstray (.inr ⟨rfl, p, hp, hb⟩)
          -- the pause is clean so far: the one that is not lies behind it
          have hclean : Clean as ((b :: c) :: cs).flatten := by
            refine ⟨fun hlast hhead => ?_, fun p hp x hx hb => ?_⟩
            · exact hcr ((cr_bytes_start as).mpr hlast) (Option.some.inj hhead)
            · obtain rfl := Option.some.inj hx
              rw [← hdec] at hp
              exact absurd hb (hin p hp)
          have hrest := ih fun hc => h ⟨hclean, hc⟩
          rw [List.append_assoc, ← List.flatten_cons] at hrest
          rw [chunks_cons, bytes_cons, byte_pause hcr hin, ← bytes_cons, ← bytes_append]
          exact hrest

/-- **Reading in chunks gives the lines of the whole stream exactly if every pause is clean.** -/
theorem readChunks_eq_iff (cs : List (List UInt8)) :
    readChunks cs = readChunks [cs.flatten] ↔ CleanSplit [] cs := by
  have hwhole : readChunks [cs.flatten] = (start.bytes cs.flatten).out := rfl
  have hstart : Clean [] cs.flatten := ⟨fun h => (nomatch h), fun _ h => (nomatch h)⟩
  rw [hwhole]
  constructor
  · intro heq
    by_contra hdirty
    have hlt := @weight_of_not_clean [] cs fun hc => hdirty hc.2
    rw [List.nil_append] at hlt
    have hle : weight (readChunks cs) = weight (start.bytes cs.flatten).out := congrArg weight heq
    exact absurd (hle ▸ hlt) (Nat.not_succ_le_self _)
  · exact fun hclean => out_chunks_of_clean hstart hclean

end Lines
