-- SUMMARY: The bytes of the commands that type a text, and why no two texts share them.
import ConsoleScript.Monitor
import ConsoleScript.Proofs.Text.Words

/-!
# Keystrokes

A text is typed by one command a character, each a line of its own. The code of a key
has no line feed, so what was written can be cut into commands again
(`keystrokes_injective`), and no two characters have the same key
(`KeyCode.ofChar?_injective`). A text of characters with a key can therefore be read off
the bytes that typed it (`keystrokes_ofText_injective`).
-/

namespace ConsoleScript

/-! ## Bytes of a text -/

namespace Text.Utf8

theorem encode_append (s t : String) : encode (s ++ t) = encode s ++ encode t := by
  simp [encode]

theorem toByteArray_encode (s : String) : (encode s).toByteArray = s.toByteArray := by
  rw [← String.ofList_toList (s := s), String.toByteArray_ofList, String.ofList_toList]
  rfl

theorem encode_injective {s t : String} (h : encode s = encode t) : s = t := by
  rw [← String.toByteArray_inj, ← toByteArray_encode, ← toByteArray_encode, h]

end Text.Utf8

/-! ## Keys of characters -/

namespace KeyCode

/-- A character and the code of its key. -/
inductive Types : Char → String → Prop where
  | own {c : Char} (h : (c.isLower || c.isDigit) = true) : Types c (String.ofList [c])
  | capital {c : Char} (h : c.isUpper = true) : Types c ("shift-" ++ String.ofList [c.toLower])
  | plain {c : Char} {code : String} (h : (c, code) ∈ plainCharacters) : Types c code
  | shifted {c : Char} {code : String} (h : (c, code) ∈ shiftedCharacters) :
      Types c ("shift-" ++ code)

theorem mem_of_lookup {c : Char} {code : String} {table : List (Char × String)}
    (h : table.lookup c = some code) : (c, code) ∈ table := by
  obtain ⟨before, after, rfl, -⟩ := List.lookup_eq_some_iff.mp h
  exact List.mem_append_right before List.mem_cons_self

theorem types_of_ofChar? {c : Char} {key : KeyCode} (h : ofChar? c = some key) :
    Types c key.code := by
  rw [ofChar?] at h
  split at h
  · next hown =>
    cases h
    exact .own hown
  · split at h
    · next hcapital =>
      cases h
      exact .capital hcapital
    · split at h
      · next code hplain =>
        cases h
        exact .plain (mem_of_lookup hplain)
      · obtain ⟨code, hshifted, rfl⟩ := Option.map_eq_some_iff.mp h
        exact .shifted (mem_of_lookup hshifted)

/-- The character whose key has a code. -/
def charOf? (code : String) : Option Char :=
  match Text.dropStart? ['s', 'h', 'i', 'f', 't', '-'] code.toList, code.toList with
  | none, [c] => some c
  | none, _ => (plainCharacters.find? fun entry => entry.2 == code).map Prod.fst
  | some [c], _ =>
    if c.isLower then some c.toUpper
    else (shiftedCharacters.find? fun entry => entry.2 == String.ofList [c]).map Prod.fst
  | some base, _ =>
    (shiftedCharacters.find? fun entry => entry.2 == String.ofList base).map Prod.fst

theorem isLower_toLower_ofNat : ∀ n ≤ 90, 65 ≤ n →
    (Char.ofNat n).toLower.isLower = true ∧ (Char.ofNat n).toLower.toUpper = Char.ofNat n := by
  decide

theorem isLower_toLower {c : Char} (h : c.isUpper = true) :
    c.toLower.isLower = true ∧ c.toLower.toUpper = c := by
  have hrange : 65 ≤ c.val ∧ c.val ≤ 90 := of_decide_eq_true h
  have hlower := isLower_toLower_ofNat c.toNat (UInt32.le_iff_toNat_le.mp hrange.2)
    (UInt32.le_iff_toNat_le.mp hrange.1)
  rwa [Char.ofNat_toNat] at hlower

theorem charOf?_plain : ∀ entry ∈ plainCharacters, charOf? entry.2 = some entry.1 := by
  decide +kernel

theorem charOf?_shifted :
    ∀ entry ∈ shiftedCharacters, charOf? ("shift-" ++ entry.2) = some entry.1 := by
  decide +kernel

theorem charOf?_own (c : Char) : charOf? (String.ofList [c]) = some c := by
  have hnone : Text.dropStart? ['s', 'h', 'i', 'f', 't', '-'] [c] = none := by
    rw [Text.dropStart?]
    split <;> rfl
  rw [charOf?, String.toList_ofList, hnone]

theorem charOf?_capital {c : Char} (h : c.isUpper = true) :
    charOf? ("shift-" ++ String.ofList [c.toLower]) = some c := by
  obtain ⟨hlower, hupper⟩ := isLower_toLower h
  have hsome : Text.dropStart? ['s', 'h', 'i', 'f', 't', '-']
      ("shift-" ++ String.ofList [c.toLower]).toList = some [c.toLower] :=
    Text.dropStart?_eq_some_iff.mpr (by simp)
  rw [charOf?, hsome]
  simp only [hlower, ↓reduceIte, hupper]

theorem charOf?_of_types {c : Char} {code : String} (h : Types c code) : charOf? code = some c := by
  cases h with
  | own => exact charOf?_own c
  | capital hcapital => exact charOf?_capital hcapital
  | plain hplain => exact charOf?_plain (c, code) hplain
  | @shifted base hshifted => exact charOf?_shifted (c, base) hshifted

/-- No two characters have the same key. -/
theorem ofChar?_injective {c d : Char} {key : KeyCode} (hc : ofChar? c = some key)
    (hd : ofChar? d = some key) : c = d :=
  Option.some.inj ((charOf?_of_types (types_of_ofChar? hc)).symm.trans
    (charOf?_of_types (types_of_ofChar? hd)))

theorem oneLine_plain : ∀ entry ∈ plainCharacters, '\n' ∉ entry.2.toList := by
  decide +kernel

theorem oneLine_shifted : ∀ entry ∈ shiftedCharacters, '\n' ∉ entry.2.toList := by
  decide +kernel

theorem Types.oneLine {c : Char} {code : String} (h : Types c code) : '\n' ∉ code.toList := by
  cases h with
  | own hown =>
    rw [String.toList_ofList, List.mem_singleton]
    rintro rfl
    cases hown
  | capital hcapital =>
    have hlower := (isLower_toLower hcapital).1
    have hline : '\n' ≠ c.toLower := by
      intro heq
      rw [← heq] at hlower
      cases hlower
    simpa using hline
  | plain hplain => exact oneLine_plain (c, code) hplain
  | @shifted base hshifted =>
    have hbase := oneLine_shifted (c, base) hshifted
    simpa using hbase

/-- The code has no line feed in it. -/
def OneLine (key : KeyCode) : Prop := '\n' ∉ key.code.toList

theorem oneLine_of_ofChar? {c : Char} {key : KeyCode} (h : ofChar? c = some key) : key.OneLine :=
  (types_of_ofChar? h).oneLine

theorem oneLine_of_ofText {text : String} : ∀ key ∈ ofText text, key.OneLine := by
  intro key hkey
  obtain ⟨c, -, hc⟩ := List.mem_filterMap.mp hkey
  exact oneLine_of_ofChar? hc

/-- Every character of the text has a key. -/
def Typeable (text : String) : Prop := ∀ c ∈ text.toList, (ofChar? c).isSome = true

theorem filterMap_ofChar?_injective {cs ds : List Char} (hcs : ∀ c ∈ cs, (ofChar? c).isSome = true)
    (hds : ∀ d ∈ ds, (ofChar? d).isSome = true)
    (h : cs.filterMap ofChar? = ds.filterMap ofChar?) : cs = ds := by
  induction cs generalizing ds with
  | nil =>
    cases ds with
    | nil => rfl
    | cons d ds =>
      obtain ⟨key, hkey⟩ := Option.isSome_iff_exists.mp (hds d List.mem_cons_self)
      simp [hkey] at h
  | cons c cs ih =>
    obtain ⟨hc, hcs⟩ := List.forall_mem_cons.mp hcs
    obtain ⟨key, hkey⟩ := Option.isSome_iff_exists.mp hc
    cases ds with
    | nil => simp [hkey] at h
    | cons d ds =>
      obtain ⟨hd, hds⟩ := List.forall_mem_cons.mp hds
      obtain ⟨key', hkey'⟩ := Option.isSome_iff_exists.mp hd
      rw [List.filterMap_cons_some hkey, List.filterMap_cons_some hkey', List.cons.injEq] at h
      obtain ⟨rfl, hrest⟩ := h
      rw [ofChar?_injective hkey hkey', ih hcs hds hrest]

theorem ofText_injective {text other : String} (htext : Typeable text) (hother : Typeable other)
    (h : ofText text = ofText other) : text = other :=
  String.toList_inj.mp (filterMap_ofChar?_injective htext hother h)

end KeyCode

/-! ## The commands of keys -/

namespace Monitor

/-- The bytes of the commands that press keys, one after the other. -/
def keystrokes (keys : List KeyCode) : List UInt8 :=
  keys.flatMap fun key => Text.Utf8.encode (keyCommand key)

@[simp] theorem keystrokes_nil : keystrokes [] = [] := rfl

@[simp] theorem keystrokes_cons (key : KeyCode) (keys : List KeyCode) :
    keystrokes (key :: keys) = Text.Utf8.encode (keyCommand key) ++ keystrokes keys :=
  List.flatMap_cons

theorem keystrokes_append (keys more : List KeyCode) :
    keystrokes (keys ++ more) = keystrokes keys ++ keystrokes more :=
  List.flatMap_append

/-- The text of the commands that press keys, one after the other. -/
def keyLines : List KeyCode → String
  | [] => ""
  | key :: keys => keyCommand key ++ keyLines keys

theorem keystrokes_eq_encode (keys : List KeyCode) :
    keystrokes keys = Text.Utf8.encode (keyLines keys) := by
  induction keys with
  | nil => rfl
  | cons key keys ih => rw [keystrokes_cons, ih, keyLines, Text.Utf8.encode_append]

theorem toList_keyLines_cons (key : KeyCode) (keys : List KeyCode) :
    (keyLines (key :: keys)).toList =
      ("sendkey ".toList ++ key.code.toList) ++ '\n' :: (keyLines keys).toList := by
  simp [keyLines, keyCommand]

theorem keyLines_cons_ne_empty (key : KeyCode) (keys : List KeyCode) :
    keyLines (key :: keys) ≠ "" := by
  intro h
  have hlines := congrArg String.toList h
  rw [toList_keyLines_cons] at hlines
  simp at hlines

/-- The first line feed ends the command of the first key. -/
theorem splitFirst?_keyLines_cons {key : KeyCode} (h : key.OneLine) (keys : List KeyCode) :
    Text.splitFirst? '\n' (keyLines (key :: keys)).toList =
      some ("sendkey ".toList ++ key.code.toList, (keyLines keys).toList) := by
  have hname : '\n' ∉ "sendkey ".toList := by decide
  refine Text.splitFirst?_eq_some_iff.mpr ⟨fun hmem => ?_, toList_keyLines_cons key keys⟩
  exact (List.mem_append.mp hmem).elim hname h

theorem keyLines_injective {keys others : List KeyCode} (hkeys : ∀ key ∈ keys, key.OneLine)
    (hothers : ∀ key ∈ others, key.OneLine) (h : keyLines keys = keyLines others) :
    keys = others := by
  induction keys generalizing others with
  | nil =>
    cases others with
    | nil => rfl
    | cons other others => exact absurd h.symm (keyLines_cons_ne_empty other others)
  | cons key keys ih =>
    cases others with
    | nil => exact absurd h (keyLines_cons_ne_empty key keys)
    | cons other others =>
      obtain ⟨hkey, hkeys⟩ := List.forall_mem_cons.mp hkeys
      obtain ⟨hother, hothers⟩ := List.forall_mem_cons.mp hothers
      have hsplit := splitFirst?_keyLines_cons hkey keys
      rw [h, splitFirst?_keyLines_cons hother others, Option.some.injEq, Prod.mk.injEq,
        List.append_cancel_left_eq, String.toList_inj, String.toList_inj] at hsplit
      obtain ⟨hcode, hrest⟩ := hsplit
      rw [ih hkeys hothers hrest.symm]
      cases key
      cases other
      cases hcode
      rfl

/-- Keys can be read off the bytes of their commands. -/
theorem keystrokes_injective {keys others : List KeyCode} (hkeys : ∀ key ∈ keys, key.OneLine)
    (hothers : ∀ key ∈ others, key.OneLine) (h : keystrokes keys = keystrokes others) :
    keys = others := by
  rw [keystrokes_eq_encode, keystrokes_eq_encode] at h
  exact keyLines_injective hkeys hothers (Text.Utf8.encode_injective h)

/-- A text of characters that have a key can be read off the bytes that type it. -/
theorem keystrokes_ofText_injective {text other : String} (htext : KeyCode.Typeable text)
    (hother : KeyCode.Typeable other)
    (h : keystrokes (KeyCode.ofText text) = keystrokes (KeyCode.ofText other)) : text = other :=
  KeyCode.ofText_injective htext hother
    (keystrokes_injective KeyCode.oneLine_of_ofText KeyCode.oneLine_of_ofText h)

end Monitor

end ConsoleScript
