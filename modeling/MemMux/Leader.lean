/-
MemMux/Leader.lean

Keys of the terminal, and the leader key of pane commands (`Prefix` of `memmux/src/app.rs`, the tables
`map_key` and `key_to_bytes` of `memmux/src/main.rs`, and `memmux/src/config.rs`).

A leader is a letter, with Ctrl or without.  Whatever text it was read from, it is shown as a text that
is read as the same leader (`parse_label`), and its literal byte is what its key types
(`keyToBytes_leader`).
-/
import MemMux.Format
import MemMux.Text
import MemMux.Tui

namespace MemMux.Tui

/-! ### Keys -/

/-- A key of the terminal. -/
inductive KeyCode
  | char (c : Char)
  | enter
  | backspace
  | tab
  | backTab
  | esc
  | up
  | down
  | left
  | right
  /-- a key that no table names -/
  | other
  deriving DecidableEq, Repr

/-- Encode a key event as the bytes a PTY expects. -/
def keyToBytes (code : KeyCode) (ctrl : Bool) : Option (List UInt8) :=
  match code with
  | .char c =>
      if ctrl && c.isAlpha then some [c.toLower.toUInt8 &&& 0x1f]
      else some (String.utf8EncodeChar c)
  | .enter => some [0x0d]
  | .backspace => some [0x7f]
  | .tab => some [0x09]
  | .esc => some [0x1b]
  | .up => some [0x1b, 0x5b, 0x41]
  | .down => some [0x1b, 0x5b, 0x42]
  | .right => some [0x1b, 0x5b, 0x43]
  | .left => some [0x1b, 0x5b, 0x44]
  | .backTab | .other => none

/-- **What a terminal is sent for a key**, with Ctrl or without; a PTY knows no other modifier, and none
is looked at. -/
inductive Encodes : KeyCode → Bool → Option (List UInt8) → Prop
  /-- a character is its UTF-8 text -/
  | text (c : Char) : Encodes (.char c) false (some (String.utf8EncodeChar c))
  /-- Ctrl and a letter, the control character of its place in the alphabet -/
  | control (n : Fin 26) :
      Encodes (.char (Char.ofNat ('a'.toNat + n))) true (some [UInt8.ofNat (n + 1)])
  | controlCapital (n : Fin 26) :
      Encodes (.char (Char.ofNat ('A'.toNat + n))) true (some [UInt8.ofNat (n + 1)])
  /-- Ctrl does nothing to other characters, nor to the keys below -/
  | symbol {c : Char} (hc : c.isAlpha = false) :
      Encodes (.char c) true (some (String.utf8EncodeChar c))
  /-- CR, HT, ESC and DEL -/
  | enter (ctrl : Bool) : Encodes .enter ctrl (some ['\r'.toUInt8])
  | tab (ctrl : Bool) : Encodes .tab ctrl (some ['\t'.toUInt8])
  | esc (ctrl : Bool) : Encodes .esc ctrl (some [27])
  | backspace (ctrl : Bool) : Encodes .backspace ctrl (some [127])
  /-- the cursor keys of a VT100 -/
  | up (ctrl : Bool) : Encodes .up ctrl (some [27, '['.toUInt8, 'A'.toUInt8])
  | down (ctrl : Bool) : Encodes .down ctrl (some [27, '['.toUInt8, 'B'.toUInt8])
  | right (ctrl : Bool) : Encodes .right ctrl (some [27, '['.toUInt8, 'C'.toUInt8])
  | left (ctrl : Bool) : Encodes .left ctrl (some [27, '['.toUInt8, 'D'.toUInt8])
  /-- Shift and Tab, and the keys that have no line here, are not sent -/
  | backTab (ctrl : Bool) : Encodes .backTab ctrl none
  | other (ctrl : Bool) : Encodes .other ctrl none

/-- A letter has a place in the alphabet. -/
theorem letter_of_isAlpha {c : Char} (hc : c.isAlpha = true) :
    ∃ n : Fin 26, c = Char.ofNat ('a'.toNat + n) ∨ c = Char.ofNat ('A'.toNat + n) := by
  have hback : Char.ofNat c.toNat = c := Char.ofNat_toNat c
  rcases isAlpha_iff.mp hc with ⟨hlo, hhi⟩ | ⟨hlo, hhi⟩
  · refine ⟨⟨c.toNat - 65, by omega⟩, .inr ?_⟩
    show c = Char.ofNat (65 + (c.toNat - 65))
    rw [Nat.add_sub_cancel' hlo, hback]
  · refine ⟨⟨c.toNat - 97, by omega⟩, .inl ?_⟩
    show c = Char.ofNat (97 + (c.toNat - 97))
    rw [Nat.add_sub_cancel' hlo, hback]

theorem keyToBytes_symbol {c : Char} (hc : c.isAlpha = false) :
    keyToBytes (.char c) true = some (String.utf8EncodeChar c) := by
  simp [keyToBytes, hc]

/-- **The bytes of a key are those a terminal is sent for it.** -/
theorem encodes_keyToBytes (code : KeyCode) (ctrl : Bool) : Encodes code ctrl (keyToBytes code ctrl) := by
  have hsmall : ∀ n : Fin 26, keyToBytes (.char (Char.ofNat ('a'.toNat + n))) true
      = some [UInt8.ofNat (n + 1)] := by decide
  have hcapital : ∀ n : Fin 26, keyToBytes (.char (Char.ofNat ('A'.toNat + n))) true
      = some [UInt8.ofNat (n + 1)] := by decide
  cases code with
  | char c =>
      cases ctrl with
      | false => exact .text c
      | true =>
          cases hc : c.isAlpha with
          | true =>
              obtain ⟨n, rfl | rfl⟩ := letter_of_isAlpha hc
              · rw [hsmall]
                exact .control n
              · rw [hcapital]
                exact .controlCapital n
          | false =>
              rw [keyToBytes_symbol hc]
              exact .symbol hc
  | enter => exact .enter ctrl
  | backspace => exact .backspace ctrl
  | tab => exact .tab ctrl
  | backTab => exact .backTab ctrl
  | esc => exact .esc ctrl
  | up => exact .up ctrl
  | down => exact .down ctrl
  | left => exact .left ctrl
  | right => exact .right ctrl
  | other => exact .other ctrl

/-- No key has two encodings. -/
theorem Encodes.eq_keyToBytes {code : KeyCode} {ctrl : Bool} {bytes : Option (List UInt8)}
    (he : Encodes code ctrl bytes) : bytes = keyToBytes code ctrl := by
  cases he with
  | control n => revert n; decide
  | controlCapital n => revert n; decide
  | symbol hc => exact (keyToBytes_symbol hc).symm
  | _ => rfl

/-- The abstract key of a key event. -/
def mapKey (code : KeyCode) (ctrl : Bool) : Option Key :=
  if ctrl && code = .char 'c' then some .quit
  else
    match code with
    | .up => some .up
    | .down => some .down
    | .left => some .left
    | .right => some .right
    | .enter => some .enter
    | .esc => some .esc
    -- either direction of a switch of two sections
    | .tab | .backTab => some .tab
    | .backspace => some .backspace
    | .char c => some (.char c)
    | .other => none

/-! ### The leader -/

/-- The pane-command leader key. -/
structure Prefix where
  ctrl : Bool := true
  ch : Char := 'b'
  deriving DecidableEq, Repr

namespace Prefix

/-- Take off what says that Ctrl is held. -/
def stripCtrl (s : List Char) : Bool × List Char :=
  match ((Format.strip ['c', 't', 'r', 'l', '-'] s).or
      (Format.strip ['c', 't', 'r', 'l', '+'] s)).or (Format.strip ['c', '-'] s) with
  | some rest => (true, rest)
  | none => (false, s)

/-- Read a leader such as `ctrl-b`, `ctrl+b`, `c-b`, or a bare `b`. -/
def parse (s : String) : Option Prefix :=
  let (ctrl, rest) := stripCtrl ((trim s).toList.map Char.toLower)
  match rest with
  | [ch] => if ch.isAlpha then some ⟨ctrl, ch⟩ else none
  | _ => none

/-- Human label for help and hints. -/
def label (p : Prefix) : String :=
  if p.ctrl then "Ctrl-" ++ String.ofList [p.ch] else String.ofList [p.ch.toUpper]

/-- The byte to forward when the leader is pressed twice. -/
def literalByte (p : Prefix) : UInt8 :=
  if p.ctrl then p.ch.toUInt8 &&& 0x1f else p.ch.toUInt8

/-- The leader of a configuration file: its `prefix` field if there is one that can be read. -/
def load (field : Option String) : Prefix := (field.bind parse).getD {}

/-- The key event is the leader. -/
def pressed (p : Prefix) (code : KeyCode) (ctrl : Bool) : Bool := ctrl == p.ctrl && code = .char p.ch

end Prefix

/-! ### Leaders are letters -/

/-- The lowercase letters. -/
def letters : List Char :=
  ['a', 'b', 'c', 'd', 'e', 'f', 'g', 'h', 'i', 'j', 'k', 'l', 'm', 'n', 'o', 'p', 'q', 'r', 's',
    't', 'u', 'v', 'w', 'x', 'y', 'z']

theorem mem_letters {c : Char} (h : c.isLower = true) : c ∈ letters := by
  have hrange : (decide (c.val ≥ 'a'.val) && decide (c.val ≤ 'z'.val)) = true := h
  rw [Bool.and_eq_true, decide_eq_true_iff, decide_eq_true_iff] at hrange
  obtain ⟨hlow, hhigh⟩ := hrange
  have hall : ∀ n < 26, Char.ofNat (97 + n) ∈ letters := by decide
  have hn : c.toNat - 97 < 26 := by
    have : c.toNat ≤ 122 := hhigh
    omega
  have heq : 97 + (c.toNat - 97) = c.toNat := by
    have : 97 ≤ c.toNat := hlow
    omega
  have := hall _ hn
  rwa [heq, Char.ofNat_toNat] at this

/-- A letter in lower case is a lowercase letter. -/
theorem mem_letters_toLower {c : Char} (h : c.toLower.isAlpha = true) : c.toLower ∈ letters := by
  refine mem_letters ?_
  unfold Char.toLower at h ⊢
  split
  · next hup =>
    obtain ⟨hlow, hhigh⟩ := hup
    have hlow : 65 ≤ c.val.toNat := hlow
    have hhigh : c.val.toNat ≤ 90 := hhigh
    have hval : (c.val + ('a'.val - 'A'.val)).toNat = c.val.toNat + 32 := by
      rw [UInt32.toNat_add]
      exact Nat.mod_eq_of_lt (by show c.val.toNat + 32 < 2 ^ 32; omega)
    show (decide (c.val + ('a'.val - 'A'.val) ≥ 'a'.val) &&
      decide (c.val + ('a'.val - 'A'.val) ≤ 'z'.val)) = true
    rw [Bool.and_eq_true, decide_eq_true_iff, decide_eq_true_iff, ge_iff_le, UInt32.le_iff_toNat_le,
      UInt32.le_iff_toNat_le, hval]
    exact ⟨Nat.add_le_add_right hlow 32, Nat.add_le_add_right hhigh 32⟩
  · next hup =>
    rw [dif_neg hup] at h
    have hnot : c.isUpper = false := decide_eq_false hup
    have halpha : (c.isUpper || c.isLower) = true := h
    rwa [hnot, Bool.false_or] at halpha

namespace Prefix

/-- The leader is a lowercase letter. -/
def Valid (p : Prefix) : Prop := p.ch ∈ letters

/-- What holds of both leaders of every letter holds of all. -/
theorem Valid.forall {P : Prefix → Bool}
    (h : (letters.all fun ch => P ⟨true, ch⟩ && P ⟨false, ch⟩) = true) {p : Prefix}
    (hp : p.Valid) : P p = true := by
  have hboth := List.all_eq_true.mp h p.ch hp
  rw [Bool.and_eq_true] at hboth
  obtain ⟨ctrl, ch⟩ := p
  cases ctrl with
  | true => exact hboth.1
  | false => exact hboth.2

theorem subset_of_strip {ts cs rest : List Char} (h : Format.strip ts cs = some rest) :
    rest ⊆ cs := by
  induction ts generalizing cs with
  | nil =>
      obtain rfl := Option.some.inj h
      exact List.Subset.refl _
  | cons t ts ih =>
      cases cs with
      | nil => cases h
      | cons c cs =>
          unfold Format.strip at h
          split at h
          · exact List.subset_cons_of_subset c (ih h)
          · cases h

theorem stripCtrl_subset (s : List Char) : (stripCtrl s).2 ⊆ s := by
  unfold stripCtrl
  split
  · next rest h =>
    rcases Option.or_eq_some_iff.mp h with h | ⟨-, h⟩
    · rcases Option.or_eq_some_iff.mp h with h | ⟨-, h⟩
      · exact subset_of_strip h
      · exact subset_of_strip h
    · exact subset_of_strip h
  · exact List.Subset.refl s

theorem valid_of_parse {s : String} {p : Prefix} (h : parse s = some p) : p.Valid := by
  have hsub := stripCtrl_subset ((trim s).toList.map Char.toLower)
  unfold parse at h
  generalize stripCtrl ((trim s).toList.map Char.toLower) = parts at h hsub
  obtain ⟨ctrl, rest⟩ := parts
  dsimp only at h
  split at h
  · next ch =>
    split at h
    · next halpha =>
      obtain rfl := Option.some.inj h
      obtain ⟨c, -, rfl⟩ := List.mem_map.mp (hsub (List.mem_singleton_self ch))
      exact mem_letters_toLower halpha
    · cases h
  · cases h

theorem valid_load (field : Option String) : (load field).Valid := by
  unfold load
  cases hp : field.bind parse with
  | none => exact (by decide : 'b' ∈ letters)
  | some p =>
      obtain ⟨s, -, hs⟩ := Option.bind_eq_some_iff.mp hp
      exact valid_of_parse hs

/-- **The label of a leader is read as that leader**. -/
theorem parse_label {s : String} {p : Prefix} (h : parse s = some p) : parse p.label = some p :=
  of_decide_eq_true
    ((valid_of_parse h).forall (P := fun p => decide (parse p.label = some p)) (by decide))

/-- **The literal byte of a leader is what its key types.** -/
theorem keyToBytes_leader {p : Prefix} (hp : p.Valid) :
    keyToBytes (.char p.ch) p.ctrl = some [p.literalByte] :=
  of_decide_eq_true
    (hp.forall (P := fun p => decide (keyToBytes (.char p.ch) p.ctrl = some [p.literalByte]))
      (by decide))

end Prefix

end MemMux.Tui
