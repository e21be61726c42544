/-
MemMux/CheckpointJson.lean

The JSON of checkpoints as `serde_json` writes it, as an instance of `CheckpointCodec`.

The artifact is pretty-printed (`to_vec_pretty`), the digested body is compact (`to_vec`).
The artifact's format is put together from the text formats of `Format`, which read back
what they print; `serdeJson` adds the UTF-8 layer.
-/
import MemMux.Checkpoint
import MemMux.Format

namespace MemMux

open Format

/-! ### The artifact -/

/-- The start of an object's entry on a line of its own: the indentation and the key. -/
def keyLine (indent : Nat) (key : String) : List Char :=
  '\n' :: List.replicate indent ' ' ++ ('"' :: key.toList) ++ ['"', ':', ' ']

/-- A string entry. -/
def stringEntry (key : String) : Format String := before (after (keyLine 2 key) quoted) [',']

/-- A number entry. -/
def u64Entry (key : String) : Format UInt64 :=
  after (keyLine 2 key)
    ((nat ',' isDigit_comma).image UInt64.ofNat UInt64.toNat fun _ => UInt64.ofNat_toNat)

/-- An optional string: `null` or the string. -/
def optionString : Format (Option String) :=
  (sum (after "null".toList nothing) (after ['"'] stringTail) fun s rest => by
      show (after _ _).read (_ ++ _ ++ rest) = none
      rw [List.append_assoc]
      exact after_read_of_clash (by decide) _ _).image
    (fun | .inl _ => none | .inr s => some s) (fun | none => .inl () | some s => .inr s)
    (by rintro (_ | s) <;> rfl)

/-- The text before the string of a secret source. -/
def sourceTag (kind key : String) : List Char :=
  keyLine 8 "kind" ++ ('"' :: kind.toList) ++ ['"', ','] ++ keyLine 8 key

/-- A secret source: an object with its tag and one string. -/
def secretSource : Format SecretSource :=
  (sum (after (sourceTag "env" "var") quoted)
    (sum (after (sourceTag "file" "path") quoted) (after (sourceTag "keychain" "account") quoted)
      fun s rest => by
        show (after _ _).read (_ ++ _ ++ rest) = none
        rw [List.append_assoc]
        exact after_read_of_clash (by decide) _ _)
    fun s rest => by
      cases s <;>
      · show (after _ _).read (_ ++ _ ++ rest) = none
        rw [List.append_assoc]
        exact after_read_of_clash (by decide) _ _).image
    (fun | .inl v => .env v | .inr (.inl p) => .file p | .inr (.inr a) => .keychain a)
    (fun | .env v => .inl v | .file p => .inr (.inl p) | .keychain a => .inr (.inr a))
    (by rintro (v | p | a) <;> rfl)

/-- A secret reference: an object of two entries. -/
def secretRef : Format SecretRef :=
  (before (after ['{']
    (seq (before (after (keyLine 6 "name") quoted) [','])
      (before (after (keyLine 6 "source" ++ ['{']) secretSource) "\n      \x7d".toList)))
    "\n    \x7d".toList).image (fun p => ⟨p.1, p.2⟩) (fun r => (r.name, r.source)) fun _ => rfl

/-- The list of secret references: `[]`, or its elements on lines of their own. -/
def secretRefs : Format (List SecretRef) :=
  (sum (after "[]".toList nothing)
    (after "[\n    ".toList
      (seq secretRef (many (after ",\n    ".toList secretRef) "\n  ]".toList fun r rest => by
        show strip _ (_ ++ _ ++ rest) = none
        rw [List.append_assoc]
        exact strip_of_clash (by decide) _)))
    fun p rest => by
      show (after _ _).read (_ ++ _ ++ rest) = none
      rw [List.append_assoc]
      exact after_read_of_clash (by decide) _ _).image
    (fun | .inl _ => [] | .inr p => p.1 :: p.2)
    (fun | [] => .inl () | r :: rs => .inr (r, rs))
    (by rintro (_ | ⟨r, rs⟩) <;> rfl)

/-- The artifact of a checkpoint. -/
def artifact : Format Checkpoint :=
  (before (after ['{']
    (seq (stringEntry "task_id") (seq (stringEntry "git_head") (seq (stringEntry "git_patch_hash")
      (seq (u64Entry "transcript_cursor")
        (seq (before (after (keyLine 2 "provider_session_ref") optionString) [','])
          (seq (after (keyLine 2 "resource_baseline_bytes") (nat ',' isDigit_comma))
            (seq (before (after (keyLine 2 "secret_refs") secretRefs) [','])
              (seq (u64Entry "created_at_ms") (after (keyLine 2 "integrity") quoted))))))))))
    "\n\x7d".toList).image
    (fun ⟨id, head, patch, cursor, session, baseline, secrets, created, integrity⟩ =>
      ⟨⟨id, head, patch, cursor, session, baseline, secrets, created⟩, integrity⟩)
    (fun ⟨⟨id, head, patch, cursor, session, baseline, secrets, created⟩, integrity⟩ =>
      ⟨id, head, patch, cursor, session, baseline, secrets, created, integrity⟩)
    fun _ => rfl

/-! ### The digested body -/

/-- A string as it stands in compact JSON. -/
def compactString (s : String) : List Char := quoted.print s

def compactSource : SecretSource → List Char
  | .env v => "\x7b\"kind\":\"env\",\"var\":".toList ++ compactString v ++ ['}']
  | .file p => "\x7b\"kind\":\"file\",\"path\":".toList ++ compactString p ++ ['}']
  | .keychain a => "\x7b\"kind\":\"keychain\",\"account\":".toList ++ compactString a ++ ['}']

def compactSecret (r : SecretRef) : List Char :=
  "\x7b\"name\":".toList ++ compactString r.name ++ ",\"source\":".toList ++ compactSource r.source
    ++ ['}']

/-- The compact JSON of the fields the digest covers. -/
def compactBody (b : IntegrityBody) : List Char :=
  "\x7b\"task_id\":".toList ++ compactString b.taskId
    ++ ",\"git_head\":".toList ++ compactString b.gitHead
    ++ ",\"git_patch_hash\":".toList ++ compactString b.gitPatchHash
    ++ ",\"transcript_cursor\":".toList ++ Nat.toDigits 10 b.transcriptCursor.toNat
    ++ ",\"provider_session_ref\":".toList ++ optionString.print b.providerSessionRef
    ++ ",\"resource_baseline_bytes\":".toList ++ Nat.toDigits 10 b.resourceBaselineBytes
    ++ ",\"secret_refs\":[".toList
    ++ List.intercalate [','] (b.secretRefs.map compactSecret)
    ++ "],\"created_at_ms\":".toList ++ Nat.toDigits 10 b.createdAtMs.toNat ++ ['}']

/-! ### The codec -/

/-- A text as its UTF-8 bytes. -/
def toUtf8 (cs : List Char) : List UInt8 := cs.flatMap String.utf8EncodeChar

/-- The text some bytes are the UTF-8 of. -/
def ofUtf8 (bytes : List UInt8) : Option (List Char) :=
  bytes.toByteArray.utf8Decode?.map Array.toList

theorem ofUtf8_toUtf8 (cs : List Char) : ofUtf8 (toUtf8 cs) = some cs := by
  show (List.utf8Encode cs).utf8Decode?.map Array.toList = some cs
  simp

/-- **What `serde_json` does for checkpoints.** -/
def serdeJson : CheckpointCodec where
  body b := toUtf8 (compactBody b)
  encode cp := toUtf8 (artifact.print cp)
  decode bytes := ((ofUtf8 bytes).bind artifact.read).bind fun r =>
    if r.2 = [] then some r.1 else none
  decode_encode cp := by
    have hread := artifact.read_print cp []
    rw [List.append_nil] at hread
    rw [ofUtf8_toUtf8, Option.bind_some, hread]
    rfl

end MemMux
