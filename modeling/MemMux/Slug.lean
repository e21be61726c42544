/-
MemMux/Slug.lean

Task slugs as the source computes them, byte by byte (`memmux-worktree/src/slug.rs`).

Slicing a string off a character boundary, indexing past the end of a table and decoding bytes
that are not UTF-8 panic; here they give `none`.  `generate_eq` says that generating a slug
never does any of these and gives the slug the daemon's model works with, and
`generate_safe` what every such slug looks like.
-/
import Mathlib.Data.List.Chain
import Mathlib.Data.List.DropRight
import Mathlib.Data.List.Infix
import Mathlib.Tactic.Common
import Mathlib.Tactic.IntervalCases
import MemMux.Worktree
import MemMux.Utf8

namespace MemMux.Slug

/-! ### Strings by their bytes -/

/-- `str::len`. -/
def byteLen (s : List Char) : Nat := (Utf8.encode s).length

/-- `str::is_char_boundary`. -/
def isCharBoundary (s : List Char) (i : Nat) : Bool := (dropBytes i s).isSome

/-- `&s[..stop]`, which panics unless `stop` is a character boundary. -/
def sliceTo : Nat → List Char → Option (List Char)
  | 0, _ => some []
  | _ + 1, [] => none
  | n + 1, c :: cs =>
      if n + 1 < c.utf8Size then none
      else (sliceTo (n + 1 - c.utf8Size) cs).map (c :: ·)

/-! ### The source -/

/-- The `while` loop of `truncate_on_boundary`. -/
def backToBoundary (s : List Char) : Nat → Nat
  | 0 => 0
  | stop + 1 => if isCharBoundary s (stop + 1) then stop + 1 else backToBoundary s stop

def truncateOnBoundary (s : List Char) (max : Nat) : Option (List Char) :=
  if byteLen s ≤ max then some s
  else (sliceTo (backToBoundary s max) s).map (trimChars (· == '-'))

/-- `DIGITS`. -/
def digits : List UInt8 := Utf8.encode "0123456789abcdefghijklmnopqrstuvwxyz".toList

/-- The `while` loop of `base36`, which pushes the digits from the last to the first. -/
def base36Loop (n : Nat) (buf : List UInt8) : Option (List UInt8) :=
  if 0 < n then
    match digits[n % 36]? with
    | none => none
    | some d => base36Loop (n / 36) (buf ++ [d])
  else some buf

def base36 (n : Nat) : Option (List Char) :=
  if n = 0 then some ['0'] else (base36Loop n []).bind fun buf => Utf8.fromUtf8 buf.reverse

/-- The `while` loop of `short_hash`. -/
def padTo (width : Nat) (s : List Char) : List Char :=
  if byteLen s < width then padTo width ('0' :: s) else s
termination_by width - byteLen s
decreasing_by
  have hone : byteLen ('0' :: s) = byteLen s + 1 := by
    simp only [byteLen, Utf8.encode_cons, List.length_append]
    exact Nat.add_comm 1 _
  omega

/-- FNV-1a 64-bit hash rendered as 7 base-36 characters. -/
def shortHash (s : String) : Option (List Char) :=
  (base36 (fnv1a (utf8 s)).toNat).bind fun b36 =>
    let b36 := padTo 7 b36
    if byteLen b36 < 7 then none else dropBytes (byteLen b36 - 7) b36

/-- Generate a slug from a free-text `intent` and a `uniqueness` seed. -/
def generate (intent uniqueness : String) : Option TaskSlug :=
  let s := slugify intent
  (if s = [] then some "task".toList else truncateOnBoundary s 24).bind fun base =>
    (shortHash (intent ++ "\x00" ++ uniqueness)).map fun suffix =>
      ⟨String.ofList (base ++ '-' :: suffix)⟩

/-- `char::is_control`. -/
def isControl (c : Char) : Bool := c.toNat ≤ 0x1F || (0x7F ≤ c.toNat && c.toNat ≤ 0x9F)

/-- The characters git refuses. -/
def refused : List Char := [' ', '~', '^', ':', '?', '*', '[', '\\', '\x7f']

/-- A conservative subset of `git check-ref-format` validation. -/
def isValidRef (name : String) : Bool :=
  let cs := name.toList
  if cs.isEmpty || cs.head? == some '/' || cs.getLast? == some '/'
      || ".lock".toList.isSuffixOf cs then false
  else if "..".toList <:+: cs ∨ "//".toList <:+: cs ∨ "@\x7b".toList <:+: cs then
    false
  else if (cs.splitOn '/').any fun component =>
      component.isEmpty || component.head? == some '.' || component.getLast? == some '.' then false
  else cs.all fun c =>
    !isControl c && !(refused.contains c)

/-- `TaskSlug::is_valid_git_ref`. -/
def isValidGitRef (s : TaskSlug) : Bool := isValidRef s.branchName

/-! ### ASCII -/

theorem byteLen_cons (c : Char) (s : List Char) : byteLen (c :: s) = c.utf8Size + byteLen s := by
  rw [byteLen, Utf8.encode_cons, List.length_append, String.length_utf8EncodeChar, byteLen]

theorem byteLen_ascii {s : List Char} (h : ∀ c ∈ s, c.utf8Size = 1) : byteLen s = s.length := by
  induction s with
  | nil => rfl
  | cons c s ih =>
      rw [byteLen_cons, h c List.mem_cons_self, ih fun d hd => h d (List.mem_cons_of_mem _ hd),
        List.length_cons, Nat.add_comm]

theorem dropBytes_ascii {s : List Char} (h : ∀ c ∈ s, c.utf8Size = 1) {i : Nat}
    (hi : i ≤ s.length) : dropBytes i s = some (s.drop i) := by
  induction s generalizing i with
  | nil =>
      rw [Nat.le_zero.mp hi]
      rfl
  | cons c s ih =>
      cases i with
      | zero => rfl
      | succ i =>
          have hrest := @ih (fun d hd => h d (List.mem_cons_of_mem _ hd)) i
            (Nat.le_of_succ_le_succ hi)
          simp [dropBytes, h c List.mem_cons_self, hrest]

theorem sliceTo_ascii {s : List Char} (h : ∀ c ∈ s, c.utf8Size = 1) {i : Nat}
    (hi : i ≤ s.length) : sliceTo i s = some (s.take i) := by
  induction s generalizing i with
  | nil =>
      rw [Nat.le_zero.mp hi]
      rfl
  | cons c s ih =>
      cases i with
      | zero => rfl
      | succ i =>
          have hrest := @ih (fun d hd => h d (List.mem_cons_of_mem _ hd)) i
            (Nat.le_of_succ_le_succ hi)
          simp [sliceTo, h c List.mem_cons_self, hrest]

/-- On ASCII every index is a boundary. -/
theorem backToBoundary_ascii {s : List Char} (h : ∀ c ∈ s, c.utf8Size = 1) {max : Nat}
    (hmax : max ≤ s.length) : backToBoundary s max = max := by
  cases max with
  | zero => rfl
  | succ n => simp [backToBoundary, isCharBoundary, dropBytes_ascii h hmax]

/-- Cutting an ASCII slug does not panic. -/
theorem truncateOnBoundary_ascii {s : List Char} (h : ∀ c ∈ s, c.utf8Size = 1) (max : Nat) :
    truncateOnBoundary s max = some (MemMux.truncateOnBoundary s max) := by
  unfold truncateOnBoundary MemMux.truncateOnBoundary
  rw [byteLen_ascii h]
  split
  · rfl
  · rename_i hmax
    have hle : max ≤ s.length := Nat.le_of_not_le hmax
    rw [backToBoundary_ascii h hle, sliceTo_ascii h hle]
    rfl

/-! ### Base 36 -/

/-- A base-36 character. -/
def isBase36 (c : Char) : Bool := c.isLower || c.isDigit

/-- A character of a slug. -/
def isSlugChar (c : Char) : Bool := isBase36 c || c == '-'

theorem isBase36_ne_dash {c : Char} (h : isBase36 c) : c ≠ '-' := by
  rintro rfl
  exact absurd h (by decide)

theorem isSlugChar_of_base36 {c : Char} (h : isBase36 c) : isSlugChar c :=
  (Bool.or_eq_true _ _).mpr (.inl h)

theorem utf8Size_slugChar {c : Char} (h : isSlugChar c) : c.utf8Size = 1 := by
  refine Char.utf8Size_eq_one_iff.mpr ?_
  simp only [isSlugChar, isBase36, isLower_iff, Char.isDigit, Bool.or_eq_true, Bool.and_eq_true,
    decide_eq_true_eq, beq_iff_eq, UInt32.le_iff_toNat_le] at h ⊢
  rcases h with (h | h) | rfl
  · exact Nat.le_trans h.2 (by decide)
  · exact Nat.le_trans h.2 (by decide)
  · decide

/-- The base-36 character of a remainder. -/
def digitChar (d : Nat) : Char :=
  if d < 10 then Char.ofNat ('0'.toNat + d) else Char.ofNat ('a'.toNat + (d - 10))

/-- The table holds, for every remainder, the byte of its base-36 character. -/
theorem digits_get {d : Nat} (h : d < 36) : isBase36 (digitChar d) ∧
    ∃ b, digits[d]? = some b ∧ String.utf8EncodeChar (digitChar d) = [b] := by
  interval_cases d <;> exact ⟨by decide, _, rfl, by decide⟩

/-- The loop of the source writes the bytes of the digits that the model's loop finds, backwards. -/
theorem base36Loop_go (fuel : Nat) {n : Nat} (hn : n < 36 ^ fuel) (buf : List UInt8)
    (acc : List Char) :
    ∃ ds : List Char, (∀ c ∈ ds, isBase36 c) ∧
      MemMux.base36.go digitChar fuel n acc = ds ++ acc ∧
      base36Loop n buf = some (buf ++ (Utf8.encode ds).reverse) := by
  induction fuel generalizing n buf acc with
  | zero =>
      have hzero : n = 0 := by simpa using hn
      subst hzero
      refine ⟨[], fun c hc => absurd hc List.not_mem_nil, rfl, ?_⟩
      rw [base36Loop]
      simp
  | succ fuel ih =>
      rcases Nat.eq_zero_or_pos n with rfl | hpos
      · refine ⟨[], fun c hc => absurd hc List.not_mem_nil, rfl, ?_⟩
        rw [base36Loop]
        simp
      · obtain ⟨hc, b, hget, henc⟩ := digits_get (Nat.mod_lt n (show 0 < 36 by decide))
        have hlt : n / 36 < 36 ^ fuel := by
          rw [Nat.div_lt_iff_lt_mul (by decide), ← Nat.pow_succ]
          exact hn
        obtain ⟨ds, hds, hgo, hloop⟩ := ih hlt (buf ++ [b]) (digitChar (n % 36) :: acc)
        refine ⟨ds ++ [digitChar (n % 36)], ?_, ?_, ?_⟩
        · intro d hd
          rcases List.mem_append.mp hd with hd | hd
          · exact hds d hd
          · exact List.mem_singleton.mp hd ▸ hc
        · obtain ⟨m, rfl⟩ : ∃ m, n = m + 1 := ⟨n - 1, by omega⟩
          rw [MemMux.base36.go, hgo, List.append_assoc, List.singleton_append]
          exact Nat.succ_ne_zero m
        · rw [base36Loop, if_pos hpos, hget]
          dsimp only
          rw [hloop]
          simp [henc]

theorem utf8Size_base36 {s : List Char} (h : ∀ c ∈ s, isBase36 c) : ∀ c ∈ s, c.utf8Size = 1 :=
  fun c hc => utf8Size_slugChar (isSlugChar_of_base36 (h c hc))

/-- The digits of a 64-bit number. -/
theorem base36_eq {n : Nat} (hn : n < 2 ^ 64) :
    base36 n = some (MemMux.base36 n) ∧ ∀ c ∈ MemMux.base36 n, isBase36 c := by
  obtain ⟨ds, hds, hgo, hloop⟩ :=
    base36Loop_go 13 (Nat.lt_of_lt_of_le hn (by decide)) [] []
  have hmodel : MemMux.base36 n = if n = 0 then ['0'] else ds := by
    rw [← ds.append_nil, ← hgo]
    rfl
  rw [hmodel, base36, hloop]
  split
  · exact ⟨rfl, fun c hc => List.mem_singleton.mp hc ▸ rfl⟩
  · refine ⟨?_, hds⟩
    rw [Option.bind_some, List.nil_append, List.reverse_reverse, Utf8.fromUtf8_encode]

/-- The padding loop fills up to the width. -/
theorem padTo_eq (width : Nat) {s : List Char} (h : ∀ c ∈ s, isBase36 c) :
    padTo width s = List.replicate (width - s.length) '0' ++ s := by
  have hlen : ∀ {s : List Char}, (∀ c ∈ s, isBase36 c) → byteLen s = s.length := fun h =>
    byteLen_ascii (utf8Size_base36 h)
  generalize hk : width - s.length = k
  induction k generalizing s with
  | zero => rw [padTo, hlen h, if_neg (by omega), List.replicate_zero, List.nil_append]
  | succ k ih =>
      have hcons : ∀ c ∈ '0' :: s, isBase36 c := List.forall_mem_cons.mpr ⟨rfl, h⟩
      have hk' : width - ('0' :: s).length = k := by
        rw [List.length_cons]
        omega
      rw [padTo, hlen h, if_pos (by omega), ih hcons hk', List.replicate_succ', List.append_assoc,
        List.singleton_append]

/-- The last seven of the padded digits. -/
theorem lastSeven_spec {ds : List Char} (h : ∀ c ∈ ds, isBase36 c) :
    let padded := List.replicate (7 - ds.length) '0' ++ ds
    (if byteLen padded < 7 then none else dropBytes (byteLen padded - 7) padded)
        = some (padded.drop (padded.length - 7)) ∧
      (padded.drop (padded.length - 7)).length = 7 ∧
      ∀ c ∈ padded.drop (padded.length - 7), isBase36 c := by
  intro padded
  have hbase : ∀ c ∈ padded, isBase36 c := by
    intro c hc
    rcases List.mem_append.mp hc with hc | hc
    · rw [List.eq_of_mem_replicate hc]
      rfl
    · exact h c hc
  have hlen : 7 ≤ padded.length := by
    rw [List.length_append, List.length_replicate]
    omega
  have hone := utf8Size_base36 hbase
  refine ⟨?_, ?_, fun c hc => hbase c (List.mem_of_mem_drop hc)⟩
  · rw [byteLen_ascii hone, if_neg (Nat.not_lt.mpr hlen)]
    exact dropBytes_ascii hone (Nat.sub_le _ _)
  · rw [List.length_drop]
    omega

/-- **The hash suffix**: computing it does not panic, and it has seven base-36 characters. -/
theorem shortHash_spec (s : String) : shortHash s = some (slugHash s) ∧
    (slugHash s).length = 7 ∧ ∀ c ∈ slugHash s, isBase36 c := by
  have hn : (fnv1a (utf8 s)).toNat < 2 ^ 64 := (fnv1a (utf8 s)).toNat_lt
  unfold shortHash slugHash
  generalize (fnv1a (utf8 s)).toNat = n at hn ⊢
  obtain ⟨hb, hdigits⟩ := base36_eq hn
  rw [hb, Option.bind_some, padTo_eq 7 hdigits]
  exact lastSeven_spec hdigits

/-! ### The shape of a slug -/

/-- No two dashes follow each other. -/
def NoDashes (l : List Char) : Prop := l.IsChain fun a b => ¬(a = '-' ∧ b = '-')

theorem not_infix_of_noDashes {l : List Char} (h : NoDashes l) : ¬"--".toList <:+: l := by
  intro hin
  have hpair : NoDashes "--".toList := h.infix hin
  exact (List.isChain_cons_cons.mp hpair).1 ⟨rfl, rfl⟩

theorem isBase36_toLower {c : Char} (h : c.toLower.isAlphanum) : isBase36 c.toLower := by
  unfold Char.toLower at h ⊢
  split
  · rename_i hup
    have hlo : 65 ≤ c.val.toNat := UInt32.le_iff_toNat_le.mp hup.1
    have hhi : c.val.toNat ≤ 90 := UInt32.le_iff_toNat_le.mp hup.2
    have hsum : (c.val + ('a'.val - 'A'.val)).toNat = c.val.toNat + 32 := by
      rw [UInt32.toNat_add]
      exact Nat.mod_eq_of_lt (show c.val.toNat + 32 < 2 ^ 32 by omega)
    have hlower : 97 ≤ c.val.toNat + 32 ∧ c.val.toNat + 32 ≤ 122 := by omega
    refine Bool.or_eq_true_iff.mpr (.inl (isLower_iff.mpr ?_))
    unfold Char.toNat
    dsimp only
    rw [hsum]
    exact hlower
  · rename_i hup
    rw [dif_neg hup] at h
    have hnot : c.isUpper = false := decide_eq_false hup
    have halpha : c.isAlpha = (c.isUpper || c.isLower) := rfl
    simpa [isBase36, Char.isAlphanum, halpha, hnot] using h

/-- What the loop of `slugify` writes: after a dash it does not write another. -/
theorem slugify_go_spec (cs : List Char) (prevDash : Bool) :
    (∀ c ∈ slugify.go cs prevDash, isSlugChar c) ∧ NoDashes (slugify.go cs prevDash) ∧
      (prevDash = true → '-' ∉ (slugify.go cs prevDash).head?) := by
  induction cs generalizing prevDash with
  | nil => exact ⟨fun c hc => absurd hc List.not_mem_nil, List.IsChain.nil, fun _ => nofun⟩
  | cons ch rest ih =>
      rw [slugify.go]
      split
      · rename_i hc
        obtain ⟨hchars, hdashes, -⟩ := ih false
        have hbase := isBase36_toLower hc
        refine ⟨List.forall_mem_cons.mpr ⟨isSlugChar_of_base36 hbase, hchars⟩, ?_, ?_⟩
        · exact List.isChain_cons.mpr ⟨fun _ _ hb => isBase36_ne_dash hbase hb.1, hdashes⟩
        · exact fun _ hmem => isBase36_ne_dash hbase (Option.mem_some.mp hmem)
      · split
        · rename_i hprev
          obtain ⟨hchars, hdashes, hhead⟩ := ih true
          exact ⟨hchars, hdashes, fun _ => hhead rfl⟩
        · rename_i hprev
          obtain ⟨hchars, hdashes, hhead⟩ := ih true
          refine ⟨List.forall_mem_cons.mpr ⟨rfl, hchars⟩, ?_, fun h => absurd h hprev⟩
          exact List.isChain_cons.mpr ⟨fun y hy hb => hhead rfl (hb.2 ▸ hy), hdashes⟩

/-- A piece of a slug: dashes stand alone, and neither at its start nor at its end. -/
structure Word (l : List Char) : Prop where
  chars : ∀ c ∈ l, isSlugChar c
  noDashes : NoDashes l
  head : '-' ∉ l.head?
  last : '-' ∉ l.getLast?

theorem trimChars_within (p : Char → Bool) (l : List Char) : trimChars p l <:+: l :=
  (List.rdropWhile_prefix p _).isInfix.trans (List.dropWhile_suffix p).isInfix

/-- Trimming leaves something unless everything is trimmed. -/
theorem trimChars_ne_nil {p : Char → Bool} {l : List Char} {c : Char} (hc : c ∈ l) (hp : ¬p c) :
    trimChars p l ≠ [] := by
  intro hnil
  have hall : ∀ x ∈ l.dropWhile p, p x := List.rdropWhile_eq_nil_iff.mp hnil
  have hempty : l.dropWhile p = [] := by
    rcases hd : l.dropWhile p with - | ⟨d, ds⟩
    · rfl
    · have hnot := List.head?_dropWhile_not p l
      rw [hd] at hnot hall
      simp only [List.head?_cons] at hnot
      rw [hall d List.mem_cons_self] at hnot
      cases hnot
  exact hp (List.dropWhile_eq_nil_iff.mp hempty c hc)

/-- What is left after trimming dashes is a piece of a slug. -/
theorem word_trim {l : List Char} (hchars : ∀ c ∈ l, isSlugChar c) (hdashes : NoDashes l) :
    Word (trimChars (· == '-') l) := by
  have hin := trimChars_within (· == '-') l
  refine ⟨fun c hc => hchars c (hin.subset hc), hdashes.infix hin, ?_, ?_⟩
  · intro hmem
    obtain ⟨t, ht⟩ : trimChars (· == '-') l <+: l.dropWhile (· == '-') := List.rdropWhile_prefix _ _
    have hnot := List.head?_dropWhile_not (· == '-') l
    rw [← ht, List.head?_append, Option.mem_def.mp hmem] at hnot
    cases hnot
  · intro hmem
    have hne : trimChars (· == '-') l ≠ [] := by
      intro hnil
      rw [hnil] at hmem
      cases hmem
    have hlast := List.rdropWhile_last_not (· == '-') (l.dropWhile (· == '-')) hne
    refine hlast ?_
    rw [List.getLast?_eq_some_getLast hne, Option.mem_some] at hmem
    exact beq_iff_eq.mpr hmem

/-- The intent as a piece of a slug. -/
theorem word_slugify (intent : String) : Word (slugify intent) :=
  have h := slugify_go_spec intent.toList false
  word_trim h.1 h.2.1

/-- A piece that is not empty begins with a character that is no dash. -/
theorem Word.head_mem {l : List Char} (h : Word l) (hne : l ≠ []) :
    ∃ c ∈ l.head?, isBase36 c := by
  obtain ⟨c, cs, rfl⟩ := List.exists_cons_of_ne_nil hne
  refine ⟨c, rfl, ?_⟩
  have hdash : c ≠ '-' := fun he => h.head (he ▸ rfl)
  have hchar := h.chars c List.mem_cons_self
  simpa [isSlugChar, hdash] using hchar

/-- Cutting a piece at the length limit, which may fall on a dash, leaves a piece. -/
theorem Word.truncate {l : List Char} (h : Word l) (hne : l ≠ []) :
    Word (MemMux.truncateOnBoundary l 24) ∧ MemMux.truncateOnBoundary l 24 ≠ [] ∧
      (MemMux.truncateOnBoundary l 24).length ≤ 24 := by
  unfold MemMux.truncateOnBoundary
  split
  · rename_i hle
    exact ⟨h, hne, hle⟩
  · have hin : l.take 24 <:+: l := (List.take_prefix 24 l).isInfix
    have hdashes := h.noDashes.infix hin
    refine ⟨word_trim (fun c hc => h.chars c (hin.subset hc)) hdashes, ?_, ?_⟩
    · -- the first character is no dash, so it is still there
      obtain ⟨c, hc, hbase⟩ := h.head_mem hne
      obtain ⟨cs, rfl⟩ := List.head?_eq_some_iff.mp hc
      exact trimChars_ne_nil (List.mem_cons_self : c ∈ c :: cs.take 23) fun hd =>
        isBase36_ne_dash hbase (beq_iff_eq.mp hd)
    · exact Nat.le_trans (trimChars_within _ _).length_le (List.length_take_le 24 l)

/-- The part of a slug before its hash. -/
def base (intent : String) : List Char :=
  if slugify intent = [] then "task".toList else MemMux.truncateOnBoundary (slugify intent) 24

theorem base_spec (intent : String) :
    Word (base intent) ∧ base intent ≠ [] ∧ (base intent).length ≤ 24 := by
  unfold base
  split
  · refine ⟨⟨?_, ?_, ?_, ?_⟩, ?_, ?_⟩ <;> simp [NoDashes, isSlugChar, isBase36]
  · rename_i hne
    exact (word_slugify intent).truncate hne

/-- The slug that `TaskSlug.generate` gives. -/
theorem toList_generate (intent uniqueness : String) :
    (TaskSlug.generate intent uniqueness).slug.toList
      = base intent ++ '-' :: slugHash (intent ++ "\x00" ++ uniqueness) :=
  String.toList_ofList

/-- **Generating a slug does not panic.** -/
theorem generate_eq (intent uniqueness : String) :
    generate intent uniqueness = some (TaskSlug.generate intent uniqueness) := by
  have hbase : (if slugify intent = [] then some "task".toList
      else truncateOnBoundary (slugify intent) 24) = some (base intent) := by
    have hascii : ∀ c ∈ slugify intent, c.utf8Size = 1 := fun c hc =>
      utf8Size_slugChar ((word_slugify intent).chars c hc)
    rw [truncateOnBoundary_ascii hascii, base]
    split <;> rfl
  unfold generate
  dsimp only
  rw [hbase, (shortHash_spec _).1]
  rfl

/-- What a slug promises: at most 32 characters of `[a-z0-9-]`, a letter or a digit first, no two
dashes in a row, and at its end a dash and seven base-36 characters. -/
structure Safe (slug : List Char) : Prop where
  short : slug.length ≤ 32
  chars : ∀ c ∈ slug, isSlugChar c
  head : ∃ c ∈ slug.head?, isBase36 c
  noDashes : ¬"--".toList <:+: slug
  suffix : ∃ word hash, slug = word ++ '-' :: hash ∧ hash.length = 7 ∧ ∀ c ∈ hash, isBase36 c

/-- A piece and a hash make a slug. -/
theorem Word.safe {word hash : List Char} (h : Word word) (hne : word ≠ [])
    (hlen : word.length ≤ 24) (hhash : hash.length = 7) (hbase : ∀ c ∈ hash, isBase36 c) :
    Safe (word ++ '-' :: hash) := by
  have hdashes : NoDashes ('-' :: hash) := by
    have htail : NoDashes hash := by
      refine List.Pairwise.isChain ?_
      exact List.pairwise_of_forall_mem_list fun c hc _ _ hb => isBase36_ne_dash (hbase c hc) hb.1
    refine List.isChain_cons.mpr ⟨fun c hc hb => ?_, htail⟩
    exact isBase36_ne_dash (hbase c (List.mem_of_mem_head? hc)) hb.2
  refine ⟨?_, ?_, ?_, not_infix_of_noDashes ?_, word, hash, rfl, hhash, hbase⟩
  · rw [List.length_append, List.length_cons, hhash]
    omega
  · intro c hc
    rcases List.mem_append.mp hc with hc | hc
    · exact h.chars c hc
    · rcases List.mem_cons.mp hc with rfl | hc
      · rfl
      · exact isSlugChar_of_base36 (hbase c hc)
  · obtain ⟨c, hc, hc36⟩ := h.head_mem hne
    refine ⟨c, ?_, hc36⟩
    rw [List.head?_append, Option.mem_def.mp hc]
    rfl
  · refine List.isChain_append.mpr ⟨h.noDashes, hdashes, ?_⟩
    intro x hx y hy hb
    exact h.last (hb.1 ▸ hx)

theorem generate_safe (intent uniqueness : String) :
    Safe (TaskSlug.generate intent uniqueness).slug.toList := by
  rw [toList_generate]
  obtain ⟨hword, hne, hlen⟩ := base_spec intent
  obtain ⟨-, hhash, hbase⟩ := shortHash_spec (intent ++ "\x00" ++ uniqueness)
  exact hword.safe hne hlen hhash hbase

/-! ### The branch name as a ref -/

theorem isControl_slugChar {c : Char} (h : isSlugChar c) : isControl c = false := by
  have hrange : 0x20 ≤ c.toNat ∧ c.toNat < 0x7F := by
    simp only [isSlugChar, isBase36, isLower_iff, Char.isDigit, Bool.or_eq_true, Bool.and_eq_true,
      decide_eq_true_eq, beq_iff_eq, UInt32.le_iff_toNat_le] at h
    rcases h with (h | h) | rfl
    · exact ⟨Nat.le_trans (by decide) h.1, Nat.lt_of_le_of_lt h.2 (by decide)⟩
    · exact ⟨Nat.le_trans (by decide) h.1, Nat.lt_of_le_of_lt h.2 (by decide)⟩
    · decide
  simp only [isControl, Bool.or_eq_false_iff, Bool.and_eq_false_iff, decide_eq_false_iff_not]
  omega

/-- A text is no part of a name that lacks one of its characters. -/
theorem not_infix_of_not_mem {cs pat : List Char} {x : Char} (hx : x ∈ pat) (hcs : x ∉ cs) :
    ¬pat <:+: cs :=
  fun hin => hcs (hin.subset hx)

/-- A name of slug characters and slashes is a ref if its components are not empty. -/
theorem isValidRef_of_chars {name : List Char} (hchars : ∀ c ∈ name, isSlugChar c ∨ c = '/')
    (hhead : ∃ c ∈ name.head?, c ≠ '/') (hlast : ∃ c ∈ name.getLast?, c ≠ '/')
    (hslashes : ¬"//".toList <:+: name)
    (hparts : ∀ part ∈ name.splitOn '/', part ≠ [] ∧ '.' ∉ part) :
    isValidRef (String.ofList name) := by
  have hnot : ∀ x : Char, isSlugChar x = false → x ≠ '/' → x ∉ name := by
    intro x hx hs hmem
    rcases hchars x hmem with h | h
    · rw [hx] at h
      cases h
    · exact hs h
  obtain ⟨c, hc, hcs⟩ := hhead
  obtain ⟨d, hd, hds⟩ := hlast
  have hne : name ≠ [] := by
    rintro rfl
    cases hc
  have hends : ¬(name.isEmpty || name.head? == some '/' || name.getLast? == some '/'
      || ".lock".toList.isSuffixOf name) = true := by
    have hlock : ¬".lock".toList <:+ name := fun hsuf =>
      not_infix_of_not_mem (x := '.') (by decide) (hnot '.' (by decide) (by decide)) hsuf.isInfix
    rw [Option.mem_def.mp hc, Option.mem_def.mp hd]
    simpa [hne, hcs, hds] using hlock
  have hmarks : ¬("..".toList <:+: name ∨ "//".toList <:+: name ∨ "@\x7b".toList <:+: name) := by
    rintro (h | h | h)
    · exact not_infix_of_not_mem (x := '.') (by decide) (hnot '.' (by decide) (by decide)) h
    · exact hslashes h
    · exact not_infix_of_not_mem (x := '@') (by decide) (hnot '@' (by decide) (by decide)) h
  have hcomponents : ¬((name.splitOn '/').any fun component =>
      component.isEmpty || component.head? == some '.' || component.getLast? == some '.')
        = true := by
    intro hany
    obtain ⟨part, hpart, hbad⟩ := List.any_eq_true.mp hany
    obtain ⟨hfull, hdot⟩ := hparts part hpart
    have hfirst : part.head? ≠ some '.' := fun h => hdot (List.mem_of_mem_head? h)
    have hfinal : part.getLast? ≠ some '.' := fun h => hdot (List.mem_of_mem_getLast? h)
    simp [hfull, hfirst, hfinal] at hbad
  unfold isValidRef
  rw [String.toList_ofList]
  dsimp only
  rw [if_neg hends, if_neg hmarks, if_neg hcomponents, List.all_eq_true]
  intro x hx
  rcases hchars x hx with h | rfl
  · have hfine : x ∉ refused := by
      intro hmem
      have hall : refused.all fun y => !isSlugChar y := by decide
      have hx := List.all_eq_true.mp hall x hmem
      rw [h] at hx
      cases hx
    rw [isControl_slugChar h, Bool.not_false, Bool.true_and, List.contains_eq_mem]
    exact (Bool.not_eq_true' _).mpr (decide_eq_false hfine)
  · decide

/-- `memmux/` and a slug. -/
theorem isValidRef_branch {slug : List Char} (hchars : ∀ c ∈ slug, isSlugChar c)
    (hne : slug ≠ []) : isValidRef (String.ofList ("memmux".toList ++ '/' :: slug)) := by
  have hslash : '/' ∉ slug := fun hmem => absurd (hchars _ hmem) (by decide)
  have hmemmux : ∀ c ∈ "memmux".toList, isSlugChar c := List.all_eq_true.mp (by decide)
  refine isValidRef_of_chars ?_ ⟨'m', rfl, by decide⟩ ?_ ?_ ?_
  · intro c hc
    rcases List.mem_append.mp hc with hc | hc
    · exact .inl (hmemmux c hc)
    · rcases List.mem_cons.mp hc with rfl | hc
      · exact .inr rfl
      · exact .inl (hchars c hc)
  · have hlast : slug.getLast hne ∈ slug := List.getLast_mem hne
    refine ⟨slug.getLast hne, ?_, fun h => hslash (h ▸ hlast)⟩
    rw [List.getLast?_append, List.getLast?_cons, List.getLast?_eq_some_getLast hne]
    rfl
  · intro hin
    have htwo : ("//".toList).count '/' ≤ ("memmux".toList ++ '/' :: slug).count '/' :=
      hin.sublist.count_le '/'
    rw [List.count_append, List.count_cons_self, List.count_eq_zero.mpr hslash] at htwo
    exact absurd htwo (by decide)
  · rw [List.splitOn_append_cons_self_of_not_mem (by decide), List.splitOn_eq_singleton hslash]
    intro part hpart
    rcases List.mem_cons.mp hpart with rfl | hpart
    · decide
    · rw [List.mem_singleton.mp hpart]
      exact ⟨hne, fun hmem => absurd (hchars _ hmem) (by decide)⟩

/-- The branch of a safe slug is a valid ref. -/
theorem Safe.isValidGitRef {s : TaskSlug} (h : Safe s.slug.toList) : isValidGitRef s := by
  have hne : s.slug.toList ≠ [] := by
    obtain ⟨word, hash, heq, -⟩ := h.suffix
    rw [heq]
    simp
  have hbranch : s.branchName = String.ofList ("memmux".toList ++ '/' :: s.slug.toList) := by
    rw [TaskSlug.branchName, ← String.toList_inj, String.toList_append]
    simp
  rw [Slug.isValidGitRef, hbranch]
  exact isValidRef_branch h.chars hne

/-- **Every slug is a safe file name and git ref**: for every intent and uniqueness seed, generating
the slug does not panic, the slug has the promised shape, and its branch name passes
`is_valid_ref`. -/
theorem generate_valid (intent uniqueness : String) :
    ∃ s, generate intent uniqueness = some s ∧ Safe s.slug.toList ∧ isValidGitRef s :=
  have hsafe := generate_safe intent uniqueness
  ⟨_, generate_eq intent uniqueness, hsafe, hsafe.isValidGitRef⟩

end MemMux.Slug
