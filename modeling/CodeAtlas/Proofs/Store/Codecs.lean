import CodeAtlas.Store.Image

/-! # Written forms

What a store writes for its rows can be read back: the words of the closed vocabularies, the
texts of the parameters of an annotation, the items of each record, and so whole tables and the
store.
-/

namespace CodeAtlas

/-! ## Words -/

theorem SymbolKind.ofText?_text (k : SymbolKind) : ofText? k.text = some k := by
  cases k <;> rfl

theorem Visibility.ofText?_text (v : Visibility) : ofText? v.text = some v := by
  cases v <;> rfl

theorem CallType.ofText?_text (t : CallType) : ofText? t.text = some t := by
  cases t <;> rfl

theorem AnnotationScope.ofText?_text (a : AnnotationScope) : ofText? a.text = some a := by
  cases a <;> rfl

theorem ImportKind.ofText?_text (k : ImportKind) : ofText? k.text = some k := by
  cases k <;> rfl

/-! ## Texts -/

namespace Json

theorem hexValue?_hexDigit :
    ∀ n < 0x20, hexValue? (hexDigit (n / 16)) = some (n / 16) ∧
      hexValue? (hexDigit (n % 16)) = some (n % 16) := by
  decide

theorem simpleEscape?_escapeLetter? {c letter : Char} (h : escapeLetter? c = some letter) :
    simpleEscape? letter = some c := by
  unfold escapeLetter? at h
  split at h <;> first | (obtain rfl := Option.some.inj h; decide) | cases h

theorem readEscapedUnit_escapeChar {c : Char} (hc : c.toNat < 0x20) (rest : List Char) :
    readEscapedUnit ('0' :: '0' :: hexDigit (c.toNat / 16) :: hexDigit (c.toNat % 16) :: rest) =
      some (c, rest) := by
  obtain ⟨hhigh, hlow⟩ := hexValue?_hexDigit c.toNat hc
  have hunit : readUnit ('0' :: '0' :: hexDigit (c.toNat / 16) :: hexDigit (c.toNat % 16) :: rest)
      = some (c.toNat, rest) := by
    have hzero : hexValue? '0' = some 0 := rfl
    have hvalue : ((0 * 16 + 0) * 16 + c.toNat / 16) * 16 + c.toNat % 16 = c.toNat := by omega
    simp only [readUnit, hzero, hhigh, hlow, Option.bind_eq_bind, Option.bind_some, hvalue]
    rfl
  have hlead : ¬ (0xD800 ≤ c.toNat) := by omega
  have htrail : ¬ (0xDC00 ≤ c.toNat) := by omega
  simp [readEscapedUnit, hunit, hlead, htrail, Char.ofNat_toNat]

theorem readChars_escapeChar (read : List Char) (fuel : Nat) (c : Char) (rest : List Char) :
    readChars read (fuel + 1) (escapeChar c ++ rest) = readChars (c :: read) fuel rest := by
  unfold escapeChar
  split
  · rename_i letter hletter
    have hread := simpleEscape?_escapeLetter? hletter
    have hu : letter ≠ 'u' := by rintro rfl; cases hread
    simp [readChars, hread]
  · rename_i hplain
    split
    · rename_i hcontrol
      have hback := readEscapedUnit_escapeChar hcontrol rest
      simp [readChars, hback]
    · rename_i hcontrol
      have hquote : c ≠ '"' := by rintro rfl; cases hplain
      have hslash : c ≠ '\\' := by rintro rfl; cases hplain
      simp [readChars, hquote, hslash, hcontrol]

theorem readChars_quoted (cs : List Char) (read rest : List Char) {fuel : Nat}
    (hfuel : cs.length < fuel) :
    readChars read fuel (cs.flatMap escapeChar ++ '"' :: rest) =
      some (String.ofList (read.reverse ++ cs), rest) := by
  induction cs generalizing read fuel with
  | nil =>
    obtain ⟨fuel, rfl⟩ := Nat.exists_eq_add_one_of_ne_zero (Nat.ne_of_gt hfuel)
    simp [readChars]
  | cons c cs ih =>
    obtain ⟨fuel, rfl⟩ := Nat.exists_eq_add_one_of_ne_zero (Nat.ne_of_gt (Nat.zero_lt_of_lt hfuel))
    rw [List.flatMap_cons, List.append_assoc, readChars_escapeChar,
      ih _ (Nat.lt_of_succ_lt_succ hfuel)]
    simp

theorem length_le_length_flatMap_escapeChar (cs : List Char) :
    cs.length ≤ (cs.flatMap escapeChar).length := by
  induction cs with
  | nil => exact Nat.le_refl _
  | cons c cs ih =>
    have hone : 1 ≤ (escapeChar c).length := by
      unfold escapeChar
      split
      · simp
      · split <;> simp
    rw [List.flatMap_cons, List.length_append, List.length_cons]
    omega

theorem readString_quote (s : String) (rest : List Char) :
    readString ((quote s).toList ++ rest) = some (s, rest) := by
  have hquote : (quote s).toList ++ rest =
      '"' :: (s.toList.flatMap escapeChar ++ '"' :: rest) := by
    simp [quote]
  have hlength := length_le_length_flatMap_escapeChar s.toList
  have hfuel : s.toList.length < (s.toList.flatMap escapeChar ++ '"' :: rest).length + 1 := by
    rw [List.length_append]
    omega
  rw [hquote, readString, readChars_quoted _ _ _ hfuel]
  simp

/-- The members of an object whose values are texts. -/
def textMembers (params : List (String × String)) : List (String × Json) :=
  params.map fun p => (p.1, .string p.2)

def membersText (params : List (String × String)) : List Char :=
  (",".intercalate (renderMembers (textMembers params))).toList

theorem membersText_singleton (p : String × String) :
    membersText [p] = (quote p.1 ++ ":" ++ quote p.2).toList := by
  simp [membersText, textMembers, renderMembers, render]

theorem membersText_cons (p q : String × String) (params : List (String × String)) :
    membersText (p :: q :: params) =
      (quote p.1 ++ ":" ++ quote p.2).toList ++ ',' :: membersText (q :: params) := by
  simp [membersText, textMembers, renderMembers, render]

theorem length_lt_length_membersText (p : String × String) (params : List (String × String)) :
    params.length + 1 < (membersText (p :: params)).length := by
  induction params generalizing p with
  | nil =>
    have hquote : 1 ≤ (quote p.1).toList.length := by simp [quote]
    have hcolon : ":".toList.length = 1 := rfl
    rw [membersText_singleton, String.toList_append, String.toList_append, List.length_append,
      List.length_append, hcolon, List.length_nil]
    omega
  | cons q params ih =>
    have hrest := ih q
    rw [membersText_cons, List.length_append, List.length_cons, List.length_cons]
    omega

theorem skipGap_quote (s : String) (rest : List Char) :
    skipGap ((quote s).toList ++ rest) = (quote s).toList ++ rest := by
  simp [quote, skipGap, isGap]

theorem readValue_quote (s : String) (depth fuel : Nat) (rest : List Char) :
    readValue depth (fuel + 1) ((quote s).toList ++ rest) = some (.string s, rest) := by
  have hfront : ∃ cs, (quote s).toList ++ rest = '"' :: cs := ⟨_, by simp [quote]; rfl⟩
  obtain ⟨cs, hcs⟩ := hfront
  have hread := readString_quote s rest
  rw [readValue, skipGap_quote]
  simp only [hcs] at hread ⊢
  rw [hread]
  rfl

theorem toList_member_append (name value : String) (rest : List Char) :
    (quote name ++ ":" ++ quote value).toList ++ rest =
      (quote name).toList ++ ':' :: ((quote value).toList ++ rest) := by
  simp

theorem skipGap_colon (cs : List Char) : skipGap (':' :: cs) = ':' :: cs := rfl

theorem readMembers_last (name value : String) (depth fuel : Nat) (rest : List Char) :
    readMembers depth (fuel + 2) ((quote name ++ ":" ++ quote value).toList ++ '\x7d' :: rest) =
      some ([(name, .string value)], rest) := by
  rw [toList_member_append, readMembers, skipGap_quote, readString_quote]
  simp only [Option.bind_eq_bind, Option.bind_some, skipGap_colon, readValue_quote]
  rfl

theorem readMembers_next (name value : String) (depth fuel : Nat) (rest : List Char) :
    readMembers depth (fuel + 2) ((quote name ++ ":" ++ quote value).toList ++ ',' :: rest) =
      (readMembers depth (fuel + 1) rest).map fun r => ((name, .string value) :: r.1, r.2) := by
  rw [toList_member_append, readMembers, skipGap_quote, readString_quote]
  simp only [Option.bind_eq_bind, Option.bind_some, skipGap_colon, readValue_quote]
  rw [Option.map_eq_bind]
  rfl

theorem readMembers_textMembers (p : String × String) (params : List (String × String))
    (depth : Nat) {fuel : Nat} (hfuel : params.length + 1 < fuel) (rest : List Char) :
    readMembers depth fuel (membersText (p :: params) ++ '\x7d' :: rest) =
      some (textMembers (p :: params), rest) := by
  induction params generalizing p fuel with
  | nil =>
    obtain ⟨fuel, rfl⟩ := Nat.exists_eq_add_of_le' hfuel
    exact readMembers_last p.1 p.2 depth fuel rest
  | cons q params ih =>
    obtain ⟨fuel, rfl⟩ := Nat.exists_eq_add_of_le' (Nat.le_trans (Nat.le_add_left 2 _) hfuel)
    have hshort : params.length + 1 < fuel + 1 := by simpa using hfuel
    have hrest := ih q hshort
    rw [membersText_cons, List.append_assoc, List.cons_append,
      readMembers_next, hrest]
    rfl

theorem parse?_render_textMembers (params : List (String × String)) :
    parse? (render (.object (textMembers params))) = some (.object (textMembers params)) := by
  cases params with
  | nil => rfl
  | cons p params =>
    have htext : (render (.object (textMembers (p :: params)))).toList =
        '\x7b' :: (membersText (p :: params) ++ ['\x7d']) := by
      simp [render, membersText]
    have hmore : ∃ cs, membersText (p :: params) ++ ['\x7d'] = '"' :: cs := by
      cases params with
      | nil => exact ⟨_, by rw [membersText_singleton]; simp [quote]; rfl⟩
      | cons q params => exact ⟨_, by rw [membersText_cons]; simp [quote]; rfl⟩
    have hlength := length_lt_length_membersText p params
    have hfuel : params.length + 1 <
        2 * ('\x7b' :: (membersText (p :: params) ++ ['\x7d'])).length + 1 := by
      simp only [List.length_cons, List.length_append]
      omega
    have hread := readMembers_textMembers p params 1 hfuel []
    have hfront : readFront ('\x7b' :: (membersText (p :: params) ++ ['\x7d'])) =
        some (.object (textMembers (p :: params)), []) := by
      obtain ⟨cs, hcs⟩ := hmore
      have hbrace : skipGap ('\x7b' :: '"' :: cs) = '\x7b' :: '"' :: cs := rfl
      have hquote : skipGap ('"' :: cs) = '"' :: cs := rfl
      rw [hcs] at hread ⊢
      rw [readFront, readValue, hbrace]
      simp only [hquote, Nat.not_lt_zero, if_false, Nat.zero_add]
      exact congrArg (Option.map fun r => (object r.1, r.2)) hread
    rw [parse?, htext, hfront]
    rfl

end Json

/-! ## Records -/

namespace Image

theorem optionalText?_ofOption (o : Option String) :
    optionalText? (.ofOption .string o) = some o := by
  cases o <;> rfl

theorem nat?_nat (n : Nat) : nat? (.nat n) = some n := rfl

theorem codebase?_codebaseItems (c : Codebase) : codebase? (codebaseItems c) = some c := by
  simp [codebase?, codebaseItems, text?, optionalText?_ofOption]

theorem file?_fileItems (f : FileEntry) : file? (fileItems f) = some f := rfl

theorem symbol?_symbolItems (s : Symbol) : symbol? (symbolItems s) = some s := by
  simp [symbol?, symbolItems, text?, nat?_nat, SymbolKind.ofText?_text, Visibility.ofText?_text]

theorem call?_callItems (e : CallEdge) : call? (callItems e) = some e := by
  simp [call?, callItems, text?, double?, nat?_nat, CallType.ofText?_text]

theorem params?_textMembers (params : List (String × String)) :
    params? (.object (Json.textMembers params)) = some params := by
  rw [params?, Json.textMembers, List.mapM_map]
  induction params with
  | nil => rfl
  | cons p params ih => rw [List.mapM_cons, ih]; rfl

theorem params?_of_text (params : List (String × String)) :
    (Json.parse? (Json.object (Json.textMembers params)).render).bind params? = some params := by
  rw [Json.parse?_render_textMembers, Option.bind_some, params?_textMembers]

theorem annotation?_annotationItems (a : Annotation) :
    annotation? (annotationItems a) = some a := by
  have hparams := params?_textMembers a.params
  simp only [Json.textMembers] at hparams
  simp [annotation?, annotationItems, text?, AnnotationScope.ofText?_text, hparams]

theorem import?_importItems (i : Import) : import? (importItems i) = some i := by
  simp [import?, importItems, text?, ImportKind.ofText?_text]

/-! ## Tables -/

section

variable {α : Type} {write : α → List Json} {read : List Json → Option α}
  (h : ∀ a, read (write a) = some a)

include h

theorem owned?_ownedItems (o : Owned α) : owned? read (ownedItems write o) = some o := by
  simp [owned?, ownedItems, int?, h]

theorem row?_rowJson (r : Row α) : row? read (rowJson write r) = some r := by
  simp [row?, rowJson, int?, h]

theorem table?_tableJson (t : Table α) : table? read (tableJson write t) = some t := by
  have hrows : (t.rows.map (rowJson write)).mapM (row? read) = some t.rows := by
    rw [List.mapM_map]
    induction t.rows with
    | nil => rfl
    | cons r rows ih => simp [ih, row?_rowJson h]
  simp [table?, tableJson, int?, hrows]

end

end Image

theorem Store.ofJson?_toJson (s : Store) : ofJson? s.toJson = some s := by
  simp [ofJson?, toJson, Image.table?_tableJson Image.codebase?_codebaseItems,
    Image.table?_tableJson Image.file?_fileItems,
    Image.table?_tableJson (Image.owned?_ownedItems Image.symbol?_symbolItems),
    Image.table?_tableJson (Image.owned?_ownedItems Image.call?_callItems),
    Image.table?_tableJson (Image.owned?_ownedItems Image.annotation?_annotationItems),
    Image.table?_tableJson (Image.owned?_ownedItems Image.import?_importItems)]

end CodeAtlas
