import Svp.Exec.CanonicalJson

/-!
# JSON values on lines of their own

What a codec of one JSON value a line needs of the serializer: no text holds a newline
(`dump_lineFree`), and a scan that allows fewer levels than the canonical one passes
the texts of values that nest that little (`runWithin_dump`). `utf8Text` is the string
that bytes encode, where they are UTF-8.
-/

namespace Svp.Exec

/-! ## Text -/

/-- The string the bytes encode; none where they are not UTF-8. -/
def utf8Text (bytes : Bytes) : Option String := String.fromUTF8? bytes.toByteArray

theorem toByteArray_utf8 (text : String) : (utf8 text).toByteArray = text.toByteArray :=
  String.utf8Encode_toList

@[simp] theorem utf8Text_utf8 (text : String) : utf8Text (utf8 text) = some text := by
  rw [utf8Text, toByteArray_utf8, String.fromUTF8?, dif_pos text.isValidUTF8]
  rfl

theorem utf8_of_utf8Text {bytes : Bytes} {text : String} (decoded : utf8Text bytes = some text) :
    utf8 text = bytes := by
  unfold utf8Text String.fromUTF8? at decoded
  split at decoded
  · cases decoded
    have same := congrArg (fun array => array.data.toList) (toByteArray_utf8 (String.fromUTF8 _ ‹_›))
    rw [List.toList_data_toByteArray] at same
    exact same.trans List.toList_data_toByteArray
  · cases decoded

/-! ## Newlines -/

def LineFree (text : Bytes) : Prop := ∀ c ∈ text, c ≠ 0x0A

instance (text : Bytes) : Decidable (LineFree text) :=
  inferInstanceAs (Decidable (∀ c ∈ text, c ≠ 0x0A))

theorem LineFree.append {front back : Bytes} (first : LineFree front) (second : LineFree back) :
    LineFree (front ++ back) := fun c mem => (List.mem_append.mp mem).elim (first c) (second c)

theorem LineFree.cons {c : UInt8} (other : c ≠ 0x0A) {text : Bytes} (free : LineFree text) :
    LineFree (c :: text) := List.forall_mem_cons.mpr ⟨other, free⟩

/-- The bytes of a character above the control characters are above them too. -/
theorem utf8EncodeChar_lineFree {c : Char} (printable : ¬ c.toNat < 0x20) :
    LineFree (String.utf8EncodeChar c) := by
  have value : ∀ n, 0x20 ≤ n → n < 256 → UInt8.ofNat n ≠ 0x0A := by
    intro n lo hi same
    have numbers := congrArg UInt8.toNat same
    rw [UInt8.toNat_ofNat_of_lt' hi] at numbers
    exact absurd (numbers ▸ lo) (by decide)
  have least : 0x20 ≤ c.val.toNat := Nat.not_lt.mp printable
  intro b mem
  simp only [String.utf8EncodeChar] at mem
  split at mem
  · rw [List.mem_singleton.mp mem]
    exact value _ least (by omega)
  · split at mem
    · simp only [List.mem_cons, List.not_mem_nil, or_false] at mem
      rcases mem with rfl | rfl <;> exact value _ (by omega) (by omega)
    · split at mem
      · simp only [List.mem_cons, List.not_mem_nil, or_false] at mem
        rcases mem with rfl | rfl | rfl <;> exact value _ (by omega) (by omega)
      · simp only [List.mem_cons, List.not_mem_nil, or_false] at mem
        rcases mem with rfl | rfl | rfl | rfl <;> exact value _ (by omega) (by omega)

theorem escapeChar_lineFree (c : Char) : LineFree (escapeChar c) := by
  unfold escapeChar
  split_ifs with h1 h2 h3 h4 h5 h6 h7 control
  · decide +kernel
  · decide +kernel
  · decide +kernel
  · decide +kernel
  · decide +kernel
  · decide +kernel
  · decide +kernel
  · have hex : ∀ n < 16, LineFree (String.utf8EncodeChar (hexDigit n)) := by decide +kernel
    refine .append (by decide +kernel) ?_
    rw [List.flatMap_cons, List.flatMap_cons, List.flatMap_nil, List.append_nil]
    exact .append (hex _ (by omega)) (hex _ (Nat.mod_lt _ (by decide)))
  · exact utf8EncodeChar_lineFree control

theorem dumpString_lineFree (text : String) : LineFree (dumpString text) := by
  refine .cons (by decide +kernel) (.append ?_ (by decide +kernel))
  intro b mem
  obtain ⟨c, -, mem⟩ := List.mem_flatMap.mp mem
  exact escapeChar_lineFree c b mem

theorem natRepr_lineFree (n : Nat) : LineFree (utf8 n.repr) := by
  intro b mem
  rw [utf8, Nat.toList_repr] at mem
  obtain ⟨c, inDigits, inBytes⟩ := List.mem_flatMap.mp mem
  have isDigit := Nat.isDigit_of_mem_toDigits (by decide) (by decide) inDigits
  have range : 48 ≤ c.val.toNat ∧ c.val.toNat ≤ 57 := by
    simpa [Char.isDigit, UInt32.le_iff_toNat_le] using isDigit
  have printable : ¬ c.toNat < 0x20 := Nat.not_lt.mpr (le_trans (by decide) range.1)
  exact utf8EncodeChar_lineFree printable b inBytes

theorem integer_lineFree (value : Int) : LineFree (utf8 (toString value)) := by
  cases value with
  | ofNat n => exact natRepr_lineFree n
  | negSucc n =>
    have split : utf8 (toString (Int.negSucc n)) = utf8 "-" ++ utf8 (n + 1).repr := by
      change utf8 ("-" ++ (n + 1).repr) = _
      simp [utf8]
    rw [split]
    exact .append (by decide +kernel) (natRepr_lineFree (n + 1))

mutual
/-- No text the serializer writes holds a newline, where none of the library's floats does. -/
theorem dump_lineFree {lib : JsonLibrary} (floats : ∀ bits, LineFree (lib.floatText bits))
    (v : Json) : LineFree (dump lib v) := by
  cases v with
  | null => exact (by decide +kernel : LineFree (utf8 "null"))
  | bool value =>
    cases value
    · exact (by decide +kernel : LineFree (utf8 "false"))
    · exact (by decide +kernel : LineFree (utf8 "true"))
  | integer value => exact integer_lineFree value
  | float bits =>
    rw [dump]
    split
    · exact floats bits
    · exact (by decide +kernel : LineFree (utf8 "null"))
  | string text => exact dumpString_lineFree text
  | array items =>
    have closing : LineFree [0x5D] := by decide +kernel
    exact .cons (by decide +kernel) (.append (dumpItems_lineFree floats items) closing)
  | object fields =>
    have closing : LineFree [0x7D] := by decide +kernel
    exact .cons (by decide +kernel) (.append (dumpFields_lineFree floats fields) closing)
  | binary bytes => exact nofun
  | discarded => exact (by decide +kernel : LineFree (utf8 "<discarded>"))

theorem dumpItems_lineFree {lib : JsonLibrary} (floats : ∀ bits, LineFree (lib.floatText bits))
    (items : List Json) : LineFree (dumpItems lib items) := by
  have comma : (0x2C : UInt8) ≠ 0x0A := by decide
  match items with
  | [] => exact nofun
  | [item] => exact dump_lineFree floats item
  | item :: next :: more =>
    exact .append (dump_lineFree floats item) (.cons comma (dumpItems_lineFree floats (next :: more)))

theorem dumpFields_lineFree {lib : JsonLibrary} (floats : ∀ bits, LineFree (lib.floatText bits))
    (fields : List (String × Json)) : LineFree (dumpFields lib fields) := by
  have comma : (0x2C : UInt8) ≠ 0x0A := by decide
  have colon : (0x3A : UInt8) ≠ 0x0A := by decide
  match fields with
  | [] => exact nofun
  | [(key, value)] =>
    exact .append (dumpString_lineFree key) (.cons colon (dump_lineFree floats value))
  | (key, value) :: next :: more =>
    have later := dumpFields_lineFree floats (next :: more)
    exact .append (dumpString_lineFree key)
      (.cons colon (.append (dump_lineFree floats value) (.cons comma later)))
end

/-! ## Scans with a limit of their own -/

/-- `DepthScan.step` with another limit; none where the text nests deeper. -/
def DepthScan.stepWithin (limit : Nat) (s : DepthScan) (character : UInt8) : Option DepthScan :=
  if s.inString then
    if s.escaped then some { s with escaped := false }
    else if character = 0x5C then some { s with escaped := true }
    else if character = 0x22 then some { s with inString := false }
    else some s
  else if character = 0x22 then some { s with inString := true }
  else if character = 0x7B ∨ character = 0x5B then
    if limit < s.depth + 1 then none else some { s with depth := s.depth + 1 }
  else if (character = 0x7D ∨ character = 0x5D) ∧ 0 < s.depth then
    some { s with depth := s.depth - 1 }
  else some s

def DepthScan.runWithin (limit : Nat) : DepthScan → Bytes → Option DepthScan
  | s, [] => some s
  | s, character :: rest => do DepthScan.runWithin limit (← s.stepWithin limit character) rest

/-- A scan that starts `above` levels up loses that lead where it closes a level the other
does not have. -/
theorem DepthScan.step_above {limit above : Nat} (split : limit + above = kMaxCanonicalJsonDepth)
    (some_ : 0 < above) {s s' t t' : DepthScan} {c : UInt8} (inString : t.inString = s.inString)
    (escaped : t.escaped = s.escaped) (lead : t.depth ≤ s.depth + above)
    (low : s.step c = .ok s') (high : t.step c = .ok t') :
    (t'.inString = s'.inString ∧ t'.escaped = s'.escaped ∧ t'.depth ≤ s'.depth + above) ∧
      (t'.depth = s'.depth + above → t.depth = s.depth + above ∧ s.stepWithin limit c = some s') := by
  obtain ⟨d, i, e⟩ := s
  obtain ⟨d', i', e'⟩ := t
  dsimp only at inString escaped lead
  subst inString escaped
  grind [DepthScan.step, DepthScan.stepWithin, kMaxCanonicalJsonDepth]

/-- A text that two scans pass, one `above` levels up from the other and so to the end,
is passed by the scan whose limit is `above` levels lower. -/
theorem DepthScan.run_above {limit above : Nat} (split : limit + above = kMaxCanonicalJsonDepth)
    (some_ : 0 < above) {text : Bytes} {s s' t t' : DepthScan} (inString : t.inString = s.inString)
    (escaped : t.escaped = s.escaped) (lead : t.depth ≤ s.depth + above)
    (low : s.run text = .ok s') (high : t.run text = .ok t')
    (kept : t'.depth = s'.depth + above) :
    t.depth = s.depth + above ∧ s.runWithin limit text = some s' := by
  induction text generalizing s t with
  | nil =>
    cases low
    cases high
    exact ⟨kept, rfl⟩
  | cons c text ih =>
    obtain ⟨next, step, low⟩ := bind_eq_ok.mp low
    obtain ⟨next', step', high⟩ := bind_eq_ok.mp high
    obtain ⟨⟨inString, escaped, lead⟩, back⟩ :=
      step_above split some_ inString escaped lead step step'
    obtain ⟨leads, passed⟩ := ih inString escaped lead low high
    obtain ⟨led, stepped⟩ := back leads
    refine ⟨led, ?_⟩
    rw [runWithin, stepped]
    exact passed

/-- The texts of values that nest at most `limit` levels pass the scan with that limit. -/
theorem runWithin_dump (lib : JsonLibrary) {v : Json} {limit : Nat}
    (within : limit < kMaxCanonicalJsonDepth) (representable : v.Representable)
    (shallow : v.nesting ≤ limit) : DepthScan.runWithin limit {} (dump lib v) = some {} := by
  obtain ⟨above, split⟩ := Nat.exists_eq_add_of_lt within
  have split : limit + (above + 1) = kMaxCanonicalJsonDepth := split.symm
  have runs : ∀ d, d + limit ≤ kMaxCanonicalJsonDepth →
      DepthScan.run ⟨d, false, false⟩ (dump lib v) = .ok ⟨d, false, false⟩ := by
    intro d fits
    have accepted := (requireEncodable_iff v ((Nat.le_add_right d limit).trans fits)).mpr
      ⟨representable, (Nat.add_le_add_left shallow d).trans fits⟩
    have run := DepthScan.run_dump lib v d accepted []
    rwa [List.append_nil] at run
  have low := runs 0 ((Nat.zero_add limit).trans_le within.le)
  have high := runs (above + 1) (by rw [Nat.add_comm, split])
  have lead : (⟨above + 1, false, false⟩ : DepthScan).depth =
      (⟨0, false, false⟩ : DepthScan).depth + (above + 1) := (Nat.zero_add _).symm
  exact (DepthScan.run_above (s := ⟨0, false, false⟩) (t := ⟨above + 1, false, false⟩) split
    (Nat.succ_pos above) rfl rfl lead.le low high lead).2

end Svp.Exec
