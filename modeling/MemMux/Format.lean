/-
MemMux/Format.lean

Text formats: a printer together with a reader that takes the printed text off the front of any
input and gives the value back.

The law is part of the structure, so a format that is built from formats by the combinators below
is lawful by construction.  Numbers carry the character that ends them, a list the text that
closes it; the side conditions say that these cannot be mistaken for what comes before.
-/
import Mathlib.Data.List.Basic
import Mathlib.Tactic.Common

/-- A printer and a reader for the values of `α`. -/
structure Format (α : Type) where
  print : α → List Char
  read : List Char → Option (α × List Char)
  read_print : ∀ a rest, read (print a ++ rest) = some (a, rest)

namespace Format

variable {α β : Type}

/-! ### Fixed text -/

/-- Take a fixed text off the front. -/
def strip : List Char → List Char → Option (List Char)
  | [], cs => some cs
  | _ :: _, [] => none
  | t :: ts, c :: cs => if t = c then strip ts cs else none

@[simp] theorem strip_append (ts rest : List Char) : strip ts (ts ++ rest) = some rest := by
  induction ts with
  | nil => rfl
  | cons t ts ih => simp [strip, ih]

/-- The two texts differ at a place both of them have, so that no text begins with both. -/
def clash : List Char → List Char → Bool
  | t :: ts, u :: us => t != u || clash ts us
  | _, _ => false

theorem strip_of_clash {ts us : List Char} (h : clash ts us) (rest : List Char) :
    strip ts (us ++ rest) = none := by
  induction ts generalizing us with
  | nil => cases h
  | cons t ts ih =>
      cases us with
      | nil => cases h
      | cons u us =>
          by_cases he : t = u
          · have htail : clash ts us := by simpa [clash, he] using h
            simp [strip, he, ih htail]
          · simp [strip, he]

/-- No text at all. -/
def nothing : Format Unit := ⟨fun _ => [], fun cs => some ((), cs), fun _ _ => rfl⟩

/-- A fixed text, then a value. -/
def after (text : List Char) (f : Format α) : Format α where
  print a := text ++ f.print a
  read cs := (strip text cs).bind f.read
  read_print a rest := by simp [f.read_print]

/-- A value, then a fixed text. -/
def before (f : Format α) (text : List Char) : Format α where
  print a := f.print a ++ text
  read cs := (f.read cs).bind fun r => (strip text r.2).map fun rest => (r.1, rest)
  read_print a rest := by simp [f.read_print]

/-! ### Products, images and sums -/

/-- Two values, one after the other. -/
def seq (f : Format α) (g : Format β) : Format (α × β) where
  print p := f.print p.1 ++ g.print p.2
  read cs := (f.read cs).bind fun r => (g.read r.2).map fun s => ((r.1, s.1), s.2)
  read_print p rest := by simp [f.read_print, g.read_print]

/-- A value written as one of another type. -/
def image (f : Format α) (pack : α → β) (unpack : β → α) (hpack : ∀ b, pack (unpack b) = b) :
    Format β where
  print b := f.print (unpack b)
  read cs := (f.read cs).map fun r => (pack r.1, r.2)
  read_print b rest := by simp [f.read_print, hpack]

theorem after_read_of_clash {ts us : List Char} (h : clash ts us) (f : Format α)
    (rest : List Char) : (after ts f).read (us ++ rest) = none := by
  simp [after, strip_of_clash h]

/-- One of two values; what the first reader takes, the second printer does not write. -/
def sum (f : Format α) (g : Format β) (h : ∀ b rest, f.read (g.print b ++ rest) = none) :
    Format (α ⊕ β) where
  print
    | .inl a => f.print a
    | .inr b => g.print b
  read cs :=
    match f.read cs with
    | some (a, rest) => some (.inl a, rest)
    | none => (g.read cs).map fun r => (.inr r.1, r.2)
  read_print s rest := by
    cases s with
    | inl a => simp [f.read_print]
    | inr b => simp [h, g.read_print]

/-! ### Lists -/

/-- Values up to a closing text, at most `n` of them. -/
def readUntil (f : Format α) (close : List Char) :
    Nat → List Char → Option (List α × List Char)
  | 0, _ => none
  | n + 1, cs =>
      match strip close cs with
      | some rest => some ([], rest)
      | none => (f.read cs).bind fun r =>
          (readUntil f close n r.2).map fun s => (r.1 :: s.1, s.2)

theorem readUntil_print {f : Format α} {close : List Char}
    (h : ∀ a rest, strip close (f.print a ++ rest) = none) (as : List α) (rest : List Char) (n : Nat)
    (hn : as.length < n) :
    readUntil f close n (as.flatMap f.print ++ (close ++ rest)) = some (as, rest) := by
  induction as generalizing n with
  | nil =>
      cases n with
      | zero => exact absurd hn (Nat.not_lt_zero _)
      | succ n => simp [readUntil]
  | cons a as ih =>
      cases n with
      | zero => exact absurd hn (Nat.not_lt_zero _)
      | succ n =>
          have hrest := ih n (Nat.lt_of_succ_lt_succ hn)
          simp [readUntil, h, f.read_print, hrest]

/-- What cannot be mistaken for a closing text is not empty. -/
theorem length_le_print {f : Format α} {close : List Char}
    (h : ∀ a rest, strip close (f.print a ++ rest) = none) (as : List α) :
    as.length ≤ (as.flatMap f.print).length := by
  induction as with
  | nil => exact Nat.zero_le _
  | cons a as ih =>
      have hne : f.print a ≠ [] := by
        intro he
        have hclose := h a close
        rw [he, List.nil_append] at hclose
        have hstrip := strip_append close []
        rw [List.append_nil, hclose] at hstrip
        cases hstrip
      have hpos := List.length_pos_iff.mpr hne
      simp only [List.length_cons, List.flatMap_cons, List.length_append]
      omega

/-- Any number of values, then a closing text. -/
def many (f : Format α) (close : List Char)
    (h : ∀ a rest, strip close (f.print a ++ rest) = none) : Format (List α) where
  print as := as.flatMap f.print ++ close
  read cs := readUntil f close (cs.length + 1) cs
  read_print as rest := by
    rw [List.append_assoc]
    refine readUntil_print h as rest _ ?_
    have hle := length_le_print h as
    simp only [List.length_append]
    omega

/-! ### Numbers -/

/-- Digits up to the character `stop`. -/
def digitsUntil (stop : Char) : List Char → Option (List Char × List Char)
  | [] => none
  | c :: cs =>
      if c = stop then some ([], cs)
      else if c.isDigit then (digitsUntil stop cs).map fun r => (c :: r.1, r.2)
      else none

theorem digitsUntil_append {stop : Char} (hstop : stop.isDigit = false) (ds : List Char)
    (hds : ∀ c ∈ ds, c.isDigit) (rest : List Char) :
    digitsUntil stop (ds ++ stop :: rest) = some (ds, rest) := by
  induction ds with
  | nil => simp [digitsUntil]
  | cons d ds ih =>
      have hd := hds d List.mem_cons_self
      have hne : d ≠ stop := by
        rintro rfl
        rw [hstop] at hd
        cases hd
      simp [digitsUntil, hne, hd, ih fun c hc => hds c (List.mem_cons_of_mem _ hc)]

theorem isDigit_comma : ','.isDigit = false := by decide

/-- A natural number in decimal, ended by the character `stop`. -/
def nat (stop : Char) (hstop : stop.isDigit = false) : Format Nat where
  print n := Nat.toDigits 10 n ++ [stop]
  read cs := (digitsUntil stop cs).map fun r => (Nat.ofDigitChars 10 r.1 0, r.2)
  read_print n rest := by
    have hds : ∀ c ∈ Nat.toDigits 10 n, c.isDigit := fun c hc =>
      Nat.isDigit_of_mem_toDigits (by decide) (by decide) hc
    simp [digitsUntil_append hstop _ hds]

/-- Digits before a character that is neither a digit nor `stop` do not count. -/
theorem digitsUntil_append_ne {stop other : Char} (hne : other ≠ stop)
    (hother : other.isDigit = false) (ds : List Char) (hds : ∀ c ∈ ds, c ≠ stop) (rest : List Char) :
    digitsUntil stop (ds ++ other :: rest) = none := by
  induction ds with
  | nil => simp [digitsUntil, hne, hother]
  | cons d ds ih =>
      have hd := hds d List.mem_cons_self
      simp [digitsUntil, hd, ih fun c hc => hds c (List.mem_cons_of_mem _ hc)]

/-- At least one natural number: `sep` ends each but the last, which `close` ends. -/
def numbersUntil (sep close : Char) : Nat → List Char → Option (List Nat × List Char)
  | 0, _ => none
  | n + 1, cs =>
      match digitsUntil sep cs with
      | some (ds, rest) =>
          (numbersUntil sep close n rest).map fun s => (Nat.ofDigitChars 10 ds 0 :: s.1, s.2)
      | none => (digitsUntil close cs).map fun r => ([Nat.ofDigitChars 10 r.1 0], r.2)

/-- At least one number, each ended by `sep` but the last by `close`. -/
def printNumbers (sep close : Char) : Nat → List Nat → List Char
  | n, [] => Nat.toDigits 10 n ++ [close]
  | n, m :: ms => Nat.toDigits 10 n ++ sep :: printNumbers sep close m ms

theorem length_le_printNumbers (sep close : Char) (n : Nat) (ns : List Nat) :
    ns.length < (printNumbers sep close n ns).length := by
  induction ns generalizing n with
  | nil => simp [printNumbers]
  | cons m ms ih =>
      have hrest := ih m
      simp only [printNumbers, List.length_append, List.length_cons]
      omega

theorem numbersUntil_print {sep close : Char} (hsep : sep.isDigit = false)
    (hclose : close.isDigit = false) (hne : close ≠ sep) (rest : List Char) (k : Nat) (n : Nat)
    (ns : List Nat) (hk : ns.length < k) :
    numbersUntil sep close k (printNumbers sep close n ns ++ rest) = some (n :: ns, rest) := by
  have digits : ∀ n : Nat, ∀ c ∈ Nat.toDigits 10 n, c.isDigit := fun n c hc =>
    Nat.isDigit_of_mem_toDigits (by decide) (by decide) hc
  have noSep : ∀ n : Nat, ∀ c ∈ Nat.toDigits 10 n, c ≠ sep := by
    rintro n c hc rfl
    have hd := digits n c hc
    rw [hsep] at hd
    cases hd
  induction ns generalizing n k with
  | nil =>
      cases k with
      | zero => exact absurd hk (Nat.not_lt_zero _)
      | succ k =>
          simp [numbersUntil, printNumbers, digitsUntil_append_ne hne hclose _ (noSep n),
            digitsUntil_append hclose _ (digits n)]
  | cons m ms ih =>
      cases k with
      | zero => exact absurd hk (Nat.not_lt_zero _)
      | succ k =>
          have hrest := ih k m (Nat.lt_of_succ_lt_succ hk)
          simp [numbersUntil, printNumbers, digitsUntil_append hsep _ (digits n), hrest]

/-- A list of numbers that is not empty, with its closing character. -/
def numbers (sep close : Char) (hsep : sep.isDigit = false) (hclose : close.isDigit = false)
    (hne : close ≠ sep) : Format (Nat × List Nat) where
  print p := printNumbers sep close p.1 p.2
  read cs := (numbersUntil sep close (cs.length + 1) cs).bind fun r =>
    match r.1 with
    | [] => none
    | n :: ns => some ((n, ns), r.2)
  read_print p rest := by
    have hlen := length_le_printNumbers sep close p.1 p.2
    rw [numbersUntil_print hsep hclose hne rest _ p.1 p.2 (by rw [List.length_append]; omega)]
    rfl

/-! ### Quoted strings -/

/-- The characters with an escape of their own. -/
def shortEscape (c : Char) : Option Char :=
  if c = '"' then some '"'
  else if c = '\\' then some '\\'
  else if c = '\x08' then some 'b'
  else if c = '\x0c' then some 'f'
  else if c = '\n' then some 'n'
  else if c = '\r' then some 'r'
  else if c = '\t' then some 't'
  else none

/-- The character a short escape stands for. -/
def shortUnescape (c : Char) : Option Char :=
  if c = '"' then some '"'
  else if c = '\\' then some '\\'
  else if c = 'b' then some '\x08'
  else if c = 'f' then some '\x0c'
  else if c = 'n' then some '\n'
  else if c = 'r' then some '\r'
  else if c = 't' then some '\t'
  else none

/-- The value of a lower-case hexadecimal digit. -/
def hexValue (c : Char) : Nat :=
  if c.isDigit then c.toNat - '0'.toNat else c.toNat - 'a'.toNat + 10

/-- A character inside a JSON string: quotes, backslashes and control characters are escaped. -/
def escape (c : Char) : List Char :=
  match shortEscape c with
  | some e => ['\\', e]
  | none =>
      if c.toNat < 0x20 then
        ['\\', 'u', '0', '0', Nat.digitChar (c.toNat / 16), Nat.digitChar (c.toNat % 16)]
      else [c]

def unescape : List Char → Option (Char × List Char)
  | [] => none
  | '\\' :: 'u' :: '0' :: '0' :: a :: b :: rest =>
      some (Char.ofNat (16 * hexValue a + hexValue b), rest)
  | '\\' :: c :: rest => (shortUnescape c).map fun d => (d, rest)
  | c :: rest => some (c, rest)

theorem shortUnescape_shortEscape {c e : Char} (h : shortEscape c = some e) :
    e ≠ 'u' ∧ shortUnescape e = some c := by
  unfold shortEscape at h
  split_ifs at h <;>
  · obtain rfl := Option.some.inj h
    subst_vars
    exact ⟨by decide, rfl⟩

/-- Two hexadecimal digits write every control character. -/
theorem hexValue_digitChar : ∀ n < 32,
    16 * hexValue (Nat.digitChar (n / 16)) + hexValue (Nat.digitChar (n % 16)) = n := by
  decide

theorem unescape_escape (c : Char) (rest : List Char) :
    unescape (escape c ++ rest) = some (c, rest) := by
  unfold escape
  cases h : shortEscape c with
  | some e =>
      obtain ⟨hne, hc⟩ := shortUnescape_shortEscape h
      simp [unescape, hne, hc]
  | none =>
      dsimp only
      split
      · next hlt =>
        have hval := hexValue_digitChar c.toNat hlt
        simp [unescape, hval]
      · have hback : c ≠ '\\' := by
          rintro rfl
          exact absurd h (by decide)
        simp [unescape, hback]

/-- No escape begins with the closing quote. -/
theorem strip_quote_escape (c : Char) (rest : List Char) :
    strip ['"'] (escape c ++ rest) = none := by
  unfold escape
  cases h : shortEscape c with
  | some e => simp [strip]
  | none =>
      have hquote : c ≠ '"' := by
        rintro rfl
        exact absurd h (by decide)
      dsimp only
      split
      · simp [strip]
      · simp [strip, hquote.symm]

/-- The characters of a JSON string. -/
def char : Format Char := ⟨escape, unescape, unescape_escape⟩

/-- The rest of a JSON string after its opening quote. -/
def stringTail : Format String :=
  (many char ['"'] strip_quote_escape).image String.ofList String.toList
    fun _ => String.ofList_toList

/-- A JSON string, with its quotes. -/
def quoted : Format String := after ['"'] stringTail

end Format
