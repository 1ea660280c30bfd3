import ExprScript.Proofs.Lexing.Pattern

/-!
# Words are as long as can be

Each scanner goes on for as long as its pattern can, and no other pattern has a word where it starts.

* `prefix_nameHead`, `prefix_fraction`, `stringBody_append_content`: the parts of words are as long as
  can be;
* `longest_scanNumber`, `longest_scanName`, `longest_scanString`, `longest_scanMethod`,
  `longest_scanSymbol`, `unmatched_scanMethod`, `unmatched_scanSymbol`: the scanners, one by one;
* **`longest_scan`**, **`unmatched_scan`**: a word is the longest one of all patterns, unless none of them
  has a word there;
* **`scan_alone`**: a token is what its word is on its own.
-/

namespace ExprScript

/-! ## Characters of a class -/

theorem prefix_takeWhile {p : Char → Bool} {w text : List Char} (hw : ∀ c ∈ w, p c = true)
    (h : w <+: text) : w <+: text.takeWhile p := by
  obtain ⟨rest, rfl⟩ := h
  rw [List.takeWhile_append_of_pos hw]
  exact List.prefix_append w _

/-- Characters of a class end where another one stands. -/
theorem takeWhile_append_stop {p : Char → Bool} {w rest : List Char} (hw : ∀ c ∈ w, p c = true)
    (hr : ∀ c ∈ rest.head?, p c = false) :
    (w ++ rest).takeWhile p = w ∧ (w ++ rest).dropWhile p = rest := by
  rw [List.takeWhile_append_of_pos hw, List.dropWhile_append_of_pos hw]
  cases rest with
  | nil => exact ⟨List.append_nil w, rfl⟩
  | cons c rest =>
    have hc := hr c rfl
    rw [List.takeWhile_cons_of_neg (by simp [hc]), List.dropWhile_cons_of_neg (by simp [hc])]
    exact ⟨List.append_nil w, rfl⟩

/-! ## Names -/

theorem isNamePart_of_mem_names {w : List Char} (h : w ∈ names) : ∀ c ∈ w, isNamePart c = true := by
  obtain ⟨c, cs, rfl, hc, hcs⟩ := mem_names.mp h
  exact List.forall_mem_cons.mpr ⟨by rw [isNamePart, hc, Bool.true_or], hcs⟩

theorem takeWhile_mem_names {c : Char} {text : List Char} (hc : isNameStart c = true) :
    (c :: text).takeWhile isNamePart ∈ names := by
  have hpart : isNamePart c = true := by rw [isNamePart, hc, Bool.true_or]
  rw [List.takeWhile_cons_of_pos hpart]
  exact mem_names.mpr ⟨c, _, rfl, hc, fun d hd => List.mem_takeWhile_imp hd⟩

theorem nameHead_mem (text : List Char) : nameHead text = [] ∨ nameHead text ∈ names := by
  unfold nameHead
  split
  · split
    · next hc => exact .inr (takeWhile_mem_names hc)
    · exact .inl rfl
  · exact .inl rfl

/-- **No longer name stands at the head of a text.** -/
theorem prefix_nameHead {w text : List Char} (hw : w ∈ names) (h : w <+: text) :
    w <+: nameHead text := by
  have hparts := prefix_takeWhile (isNamePart_of_mem_names hw) h
  obtain ⟨c, cs, rfl, hc, -⟩ := mem_names.mp hw
  obtain ⟨rest, rfl⟩ := h
  rwa [List.cons_append, nameHead, if_pos hc]

theorem nameHead_nameHead (text : List Char) : nameHead (nameHead text) = nameHead text := by
  obtain h | h := nameHead_mem text
  · rw [h]
    rfl
  · exact (prefix_nameHead h (List.prefix_refl _)).eq_of_length_le
      ((List.prefix_iff_eq_append.mpr (append_drop_nameHead _)).length_le) |>.symm

theorem longest_scanName {c : Char} (text : List Char) (hc : isNameStart c = true) :
    Longest names (scanName (c :: text)).word (c :: text) where
  mem := takeWhile_mem_names hc
  front := List.takeWhile_prefix _
  longest _ hw hf := (prefix_takeWhile (isNamePart_of_mem_names hw) hf).length_le

/-! ## Numbers -/

theorem fraction_mem (text : List Char) : fraction text ∈ fractions := by
  rw [mem_fractions]
  unfold fraction
  split
  · next rest =>
    split
    · exact .inl rfl
    · next places hne =>
      refine .inr ⟨rest.takeWhile Char.isDigit, mem_digits.mpr ⟨?_, fun c hc => List.mem_takeWhile_imp hc⟩, rfl⟩
      exact fun he => hne he
  · exact .inl rfl

/-- The fraction of a text that starts with a point and digits. -/
theorem fraction_cons {ds : List Char} (hd : ds ∈ digits) (rest : List Char) :
    fraction ('.' :: (ds ++ rest)) = '.' :: (ds ++ rest.takeWhile Char.isDigit) := by
  obtain ⟨hne, hall⟩ := mem_digits.mp hd
  obtain ⟨d, ds, rfl⟩ := List.exists_cons_of_ne_nil hne
  rw [fraction, List.takeWhile_append_of_pos hall]
  rfl

/-- **No longer fraction stands at the head of a text.** -/
theorem prefix_fraction {w text : List Char} (hw : w ∈ fractions) (h : w <+: text) :
    w <+: fraction text := by
  obtain ⟨rest, rfl⟩ := h
  obtain rfl | ⟨ds, hd, rfl⟩ := mem_fractions.mp hw
  · exact List.nil_prefix
  · rw [List.cons_append, fraction_cons hd, ← List.cons_append]
    exact List.prefix_append _ _

/-- A fraction ends where neither a digit nor a point stands. -/
theorem fraction_append_stop {w rest : List Char} (hw : w ∈ fractions)
    (hr : ∀ c ∈ rest.head?, c.isDigit = false ∧ c ≠ '.') : fraction (w ++ rest) = w := by
  have hdigits : rest.takeWhile Char.isDigit = [] :=
    (takeWhile_append_stop (w := []) (fun _ => nofun) fun c hc => (hr c hc).1).1
  obtain rfl | ⟨ds, hd, rfl⟩ := mem_fractions.mp hw
  · cases rest with
    | nil => rfl
    | cons c rest => simp [fraction, (hr c rfl).2]
  · rw [List.cons_append, fraction_cons hd, hdigits, List.append_nil]

/-- The digits in front of a fraction end there. -/
theorem takeWhile_append_fraction {whole places : List Char} (rest : List Char)
    (hwhole : whole ∈ digits) (hplaces : places ∈ fractions)
    (hr : places = [] → ∀ c ∈ rest.head?, c.isDigit = false) :
    (whole ++ (places ++ rest)).takeWhile Char.isDigit = whole ∧
      (whole ++ (places ++ rest)).dropWhile Char.isDigit = places ++ rest := by
  refine takeWhile_append_stop (mem_digits.mp hwhole).2 ?_
  obtain rfl | ⟨ds, -, rfl⟩ := mem_fractions.mp hplaces
  · exact hr rfl
  · rintro c ⟨⟩
    rfl

/-- What a number is cut into, if neither a digit nor a point stands behind it. -/
theorem scanNumber_parts {whole places : List Char} (rest : List Char) (hwhole : whole ∈ digits)
    (hplaces : places ∈ fractions) (hr : ∀ c ∈ rest.head?, c.isDigit = false ∧ c ≠ '.') :
    scanNumber (whole ++ (places ++ rest)) =
      ⟨whole ++ places ++ nameHead rest,
        if (nameHead rest).isEmpty then .ok (.number (Number.ofNumeral whole places.tail))
        else .error .malformedNumber,
        rest.drop (nameHead rest).length⟩ := by
  obtain ⟨htake, hdrop⟩ := takeWhile_append_fraction rest hwhole hplaces fun _ c hc => (hr c hc).1
  simp only [scanNumber, htake, hdrop, fraction_append_stop hplaces hr, List.drop_left]

theorem takeWhile_mem_digits {c : Char} (text : List Char) (hc : c.isDigit = true) :
    (c :: text).takeWhile Char.isDigit ∈ digits := by
  refine mem_digits.mpr ⟨?_, fun d hd => List.mem_takeWhile_imp hd⟩
  rw [List.takeWhile_cons_of_pos hc]
  exact List.cons_ne_nil _ _

theorem length_le_scanNumber {w text : List Char} (hw : w ∈ numbers) (h : w <+: text) :
    w.length ≤ (scanNumber text).word.length := by
  have hlength : (text.takeWhile Char.isDigit).length +
      (fraction (text.dropWhile Char.isDigit)).length ≤ (scanNumber text).word.length := by
    simp only [scanNumber, List.length_append]
    omega
  obtain ⟨whole, hwhole, places, hplaces, glued, hglued, rfl⟩ := mem_numbers.mp hw
  obtain ⟨rest, rfl⟩ := h
  obtain rfl | hglued := hglued
  · simp only [List.append_nil, List.append_assoc] at hlength ⊢
    obtain rfl | ⟨ds, hds, rfl⟩ := mem_fractions.mp hplaces
    · have hfront := prefix_takeWhile (mem_digits.mp hwhole).2 (List.prefix_append whole rest)
      rw [List.append_nil]
      exact Nat.le_trans hfront.length_le (Nat.le_trans (Nat.le_add_right _ _) hlength)
    · obtain ⟨htake, hdrop⟩ := takeWhile_append_fraction rest hwhole hplaces
        fun h => absurd h (List.cons_ne_nil _ _)
      have hfront := prefix_fraction hplaces (List.prefix_append _ rest)
      rw [htake, hdrop] at hlength
      rw [List.length_append]
      exact Nat.le_trans (Nat.add_le_add_left hfront.length_le _) hlength
  · have hfront := prefix_nameHead hglued (List.prefix_append glued rest)
    have hstop : ∀ c ∈ (glued ++ rest).head?, c.isDigit = false ∧ c ≠ '.' := by
      obtain ⟨c, cs, rfl, hc, -⟩ := mem_names.mp hglued
      rintro d ⟨⟩
      refine ⟨isDigit_eq_false_of_isNameStart hc, ?_⟩
      rintro rfl
      cases hc
    simp only [List.append_assoc, scanNumber_parts _ hwhole hplaces hstop, List.length_append]
    exact Nat.add_le_add_left (Nat.add_le_add_left hfront.length_le _) _

theorem longest_scanNumber {c : Char} (text : List Char) (hc : c.isDigit = true) :
    Longest numbers (scanNumber (c :: text)).word (c :: text) where
  mem := mem_numbers.mpr ⟨_, takeWhile_mem_digits text hc, _, fraction_mem _, _, nameHead_mem _, rfl⟩
  front := ⟨_, scanNumber_split _⟩
  longest _ := length_le_scanNumber

/-! ## Strings -/

/-- **What stands in a string is taken in from its head on.** -/
theorem stringBody_append_content {body : List Char} (h : Content body) (rest : List Char) :
    stringBody (body ++ rest) = (body ++ (stringBody rest).1, (stringBody rest).2) := by
  induction h with
  | nil => rfl
  | @plain c cs hc _ ih =>
    obtain ⟨⟨hq, hb⟩, hn⟩ : (c ≠ '"' ∧ c ≠ '\\') ∧ c ≠ '\n' := by simpa [isPlain] using hc
    simp [stringBody, hb, ih]
  | @escape c cs hc _ ih => simp [stringBody, hc, ih]

theorem content_stringBody (text : List Char) : Content (stringBody text).1 := by
  fun_induction stringBody text with
  | case1 => exact .nil
  | case2 => exact .nil
  | case3 => exact .nil
  | case4 => exact .nil
  | case5 => exact .nil
  | case6 c rest hc body behind hb ih =>
    rw [hb] at ih
    exact .escape hc ih
  | case7 c rest hq hn hs hs' body behind hb ih =>
    rw [hb] at ih
    refine .plain ?_ ih
    -- a backslash would have to stand at the end of the text, where it is taken for itself
    have hc : c ≠ '\\' := by
      rintro rfl
      cases rest with
      | nil => exact hs rfl rfl
      | cons d rest => exact hs' d rest rfl rfl
    have hq' : c ≠ '"' := hq
    have hn' : c ≠ '\n' := hn
    simp [isPlain, hc, hq', hn']

/-- What is taken in of a string that is closed. -/
theorem stringBody_closed {body : List Char} (h : Content body) (rest : List Char) :
    stringBody (body ++ '"' :: rest) = (body, '"' :: rest) := by
  rw [stringBody_append_content h, stringBody, List.append_nil]

theorem scanString_closed {body : List Char} (h : Content body) (rest : List Char) :
    scanString (body ++ '"' :: rest) =
      ⟨'"' :: (body ++ ['"']), (unescape body).map fun cs => .string (String.ofList cs), rest⟩ := by
  rw [scanString, stringBody_closed h]
  rfl

/-- A string is closed if there is a quote behind its content, and is taken in as far as it goes
otherwise. -/
theorem scanString_cases (text : List Char) :
    (∃ body rest, Content body ∧ text = body ++ '"' :: rest) ∨
      ((∀ body rest, Content body → text ≠ body ++ '"' :: rest) ∧
        (scanString text).word = '"' :: (stringBody text).1 ∧
        (scanString text).token = .error .unterminatedString) := by
  have hsplit := stringBody_split text
  have hcontent := content_stringBody text
  unfold scanString
  split
  · next body rest he =>
    rw [he] at hsplit hcontent
    exact .inl ⟨body, rest, hcontent, hsplit.symm⟩
  · next body rest hne he =>
    rw [he]
    refine .inr ⟨?_, rfl, rfl⟩
    rintro body' rest' hb rfl
    rw [stringBody_closed hb] at he
    cases he
    exact hne _ rfl

theorem longest_scanString (text : List Char) :
    Longest (openStrings + closedStrings) (scanString text).word ('"' :: text) := by
  have hfront : (scanString text).word <+: '"' :: text := ⟨_, scanString_split text⟩
  -- without its closing quote, no content is longer than what is taken in
  have hopen : ∀ body, Content body → body <+: text → body.length ≤ (stringBody text).1.length := by
    rintro body hb ⟨rest, rfl⟩
    rw [stringBody_append_content hb, List.length_append]
    exact Nat.le_add_right _ _
  obtain ⟨body, rest, hb, rfl⟩ | ⟨hunclosed, hword, -⟩ := scanString_cases text
  · rw [scanString_closed hb] at hfront ⊢
    rw [stringBody_closed hb] at hopen
    refine ⟨.inr (mem_closedStrings.mpr ⟨body, hb, rfl⟩), hfront, ?_⟩
    rintro w (hw | hw) hf
    · obtain ⟨body', hb', rfl⟩ := mem_openStrings.mp hw
      have hle := hopen body' hb' (List.cons_prefix_cons.mp hf).2
      simp only [List.length_cons, List.length_append]
      exact Nat.succ_le_succ (Nat.le_trans hle (Nat.le_add_right _ _))
    · obtain ⟨body', hb', rfl⟩ := mem_closedStrings.mp hw
      have hf' := (List.cons_prefix_cons.mp hf).2
      have hle := hopen body' hb' ((List.prefix_append _ _).trans hf')
      simp only [List.length_cons, List.length_append]
      exact Nat.succ_le_succ (Nat.add_le_add_right hle _)
  · refine ⟨.inl (mem_openStrings.mpr ⟨_, content_stringBody text, hword⟩), hfront, ?_⟩
    rw [hword]
    rintro w (hw | hw) hf
    · obtain ⟨body', hb', rfl⟩ := mem_openStrings.mp hw
      exact Nat.succ_le_succ (hopen body' hb' (List.cons_prefix_cons.mp hf).2)
    · obtain ⟨body', hb', rfl⟩ := mem_closedStrings.mp hw
      obtain ⟨rest, hrest⟩ := (List.cons_prefix_cons.mp hf).2
      rw [List.append_assoc, List.singleton_append] at hrest
      exact absurd hrest.symm (hunclosed body' rest hb')

theorem unescape_ne_invalidToken (body : List Char) : unescape body ≠ .error .invalidToken := by
  fun_induction unescape body with
  | case1 c rest d hd ih => cases hu : unescape rest <;> simp_all [Except.map]
  | case2 c rest hd => exact nofun
  | case3 c rest hne ih => cases hu : unescape rest <;> simp_all [Except.map]
  | case4 => exact nofun

/-- No string is a word that no pattern matches. -/
theorem scanString_ne_invalidToken (text : List Char) :
    (scanString text).token ≠ .error .invalidToken := by
  obtain ⟨body, rest, hb, rfl⟩ | ⟨-, -, htoken⟩ := scanString_cases text
  · rw [scanString_closed hb]
    have hu := unescape_ne_invalidToken body
    cases hcs : unescape body with
    | ok cs => exact nofun
    | error cause => exact fun he => hu (hcs.trans (congrArg _ (Except.error.inj he)))
  · rw [htoken]
    exact nofun

/-! ## Methods -/

theorem longest_scanMethod {text : List Char} (h : nameHead text ≠ []) :
    Longest methods (scanMethod text).word ('.' :: text) where
  mem := mem_methods.mpr ⟨_, (nameHead_mem text).resolve_left h, rfl⟩
  front := ⟨_, scanMethod_split text⟩
  longest w hw hf := by
    obtain ⟨name, hn, rfl⟩ := mem_methods.mp hw
    exact Nat.succ_le_succ (prefix_nameHead hn (List.cons_prefix_cons.mp hf).2).length_le

theorem unmatched_scanMethod {text : List Char} (h : nameHead text = []) :
    Unmatched methods ('.' :: text) := by
  intro w hw hf
  obtain ⟨name, hn, rfl⟩ := mem_methods.mp hw
  have hfront := prefix_nameHead hn (List.cons_prefix_cons.mp hf).2
  obtain ⟨c, cs, rfl, -⟩ := mem_names.mp hn
  rw [h, List.prefix_nil] at hfront
  cases hfront

/-! ## Symbols -/

theorem Symbol.spelling_cases (s : Symbol) :
    (∃ c, s.spelling.toList = [c] ∧ ofChar? c = some s) ∨
      ∃ c d, s.spelling.toList = [c, d] ∧ ofPair? c d = some s := by
  cases s
  case arrow | equalEqual | bangEqual | lessEqual | greaterEqual => exact .inr ⟨_, _, rfl, rfl⟩
  all_goals exact .inl ⟨_, rfl, rfl⟩

theorem Symbol.spelling_of_ofChar? {c : Char} {s : Symbol} (h : ofChar? c = some s) :
    s.spelling.toList = [c] := by
  unfold ofChar? at h
  split at h <;> cases h <;> rfl

theorem Symbol.spelling_of_ofPair? {c d : Char} {s : Symbol} (h : ofPair? c d = some s) :
    s.spelling.toList = [c, d] := by
  unfold ofPair? at h
  split at h <;> cases h <;> rfl

theorem length_le_of_mem_symbols {w : List Char} (h : w ∈ symbols) : w.length ≤ 2 := by
  obtain ⟨s, rfl⟩ := h
  obtain ⟨c, hs, -⟩ | ⟨c, d, hs, -⟩ := s.spelling_cases <;> simp [hs]

/-- Where no two characters make up a symbol, one of them has to. -/
theorem eq_singleton_of_mem_symbols {c : Char} {text w : List Char}
    (hpair : ∀ d ∈ text.head?, Symbol.ofPair? c d = none) (hw : w ∈ symbols) (hf : w <+: c :: text) :
    w = [c] ∧ (Symbol.ofChar? c).isSome := by
  obtain ⟨s, rfl⟩ := hw
  obtain ⟨c', hs, ho⟩ | ⟨c', d, hs, ho⟩ := s.spelling_cases
  · rw [hs] at hf ⊢
    obtain ⟨rfl, -⟩ := List.cons_prefix_cons.mp hf
    exact ⟨rfl, by rw [ho]; rfl⟩
  · rw [hs] at hf
    obtain ⟨rfl, rest, rfl⟩ := List.cons_prefix_cons.mp hf
    rw [hpair d rfl] at ho
    cases ho

theorem scanSymbol_cases (c : Char) (text : List Char) :
    (∃ d rest s, text = d :: rest ∧ Symbol.ofPair? c d = some s ∧
      scanSymbol c text = ⟨[c, d], .ok (.symbol s), rest⟩) ∨
    ((∀ d ∈ text.head?, Symbol.ofPair? c d = none) ∧
      scanSymbol c text = match Symbol.ofChar? c with
        | some s => ⟨[c], .ok (.symbol s), text⟩
        | none => ⟨[c], .error .invalidToken, text⟩) := by
  cases text with
  | nil => exact .inr ⟨fun d hd => (nomatch hd), rfl⟩
  | cons d rest =>
    rw [scanSymbol]
    cases hp : Symbol.ofPair? c d with
    | none =>
      refine .inr ⟨?_, rfl⟩
      rintro d' ⟨⟩
      exact hp
    | some s => exact .inl ⟨d, rest, s, rfl, hp, rfl⟩

theorem longest_scanSymbol {c : Char} {text : List Char}
    (h : (scanSymbol c text).token ≠ .error .invalidToken) :
    Longest symbols (scanSymbol c text).word (c :: text) := by
  obtain ⟨d, rest, s, rfl, hp, hscan⟩ | ⟨hpair, hscan⟩ := scanSymbol_cases c text
  · rw [hscan]
    exact ⟨⟨s, (Symbol.spelling_of_ofPair? hp).symm⟩, ⟨rest, rfl⟩,
      fun w hw _ => length_le_of_mem_symbols hw⟩
  · cases ho : Symbol.ofChar? c with
    | none =>
      rw [hscan, ho] at h
      exact absurd rfl h
    | some s =>
      rw [hscan, ho]
      refine ⟨⟨s, (Symbol.spelling_of_ofChar? ho).symm⟩, ⟨text, rfl⟩, fun w hw hf => ?_⟩
      rw [(eq_singleton_of_mem_symbols hpair hw hf).1]

theorem unmatched_scanSymbol {c : Char} {text : List Char} {cause : LexicalCause}
    (h : (scanSymbol c text).token = .error cause) : Unmatched symbols (c :: text) := by
  intro w hw hf
  obtain ⟨d, rest, s, rfl, hp, hscan⟩ | ⟨hpair, hscan⟩ := scanSymbol_cases c text
  · rw [hscan] at h
    cases h
  · obtain ⟨s, ho⟩ := Option.isSome_iff_exists.mp (eq_singleton_of_mem_symbols hpair hw hf).2
    rw [hscan, ho] at h
    cases h

/-! ## Words -/

/-- **A word that is a token, or an error of another kind than that no pattern matches, is the longest
word of all patterns.** -/
theorem longest_scan {c : Char} {text : List Char} (h : (scan c text).token ≠ .error .invalidToken) :
    Longest patterns (scan c text).word (c :: text) := by
  rw [longest_patterns_iff]
  unfold scan at h ⊢
  unfold Family.ofHead
  split_ifs at h ⊢ with hdigit hname hquote hpoint
  · exact longest_scanNumber text hdigit
  · exact longest_scanName text hname
  · exact hquote ▸ longest_scanString text
  · have hne : nameHead text ≠ [] := fun he => h (by simp [scanMethod, he])
    exact hpoint ▸ longest_scanMethod hne
  · exact longest_scanSymbol h

/-- **Where a word is an error because no pattern matches, none does.** -/
theorem unmatched_scan {c : Char} {text : List Char} (h : (scan c text).token = .error .invalidToken) :
    Unmatched patterns (c :: text) := by
  rw [unmatched_patterns_iff]
  unfold scan at h
  unfold Family.ofHead
  split_ifs at h ⊢ with hdigit hname hquote hpoint
  · simp only [scanNumber] at h
    split at h <;> cases h
  · cases h
  · exact absurd h (scanString_ne_invalidToken text)
  · subst hpoint
    refine unmatched_scanMethod ?_
    simp only [scanMethod] at h
    split at h
    · next he => exact List.isEmpty_iff.mp he
    · split at h <;> cases h
  · exact unmatched_scanSymbol h

/-! ## Tokens on their own -/

theorem scanNumber_alone {c : Char} {text : List Char} {t : Token} (hc : c.isDigit = true)
    (h : (scanNumber (c :: text)).token = .ok t) :
    scanNumber (scanNumber (c :: text)).word = ⟨(scanNumber (c :: text)).word, .ok t, []⟩ := by
  obtain ⟨whole, hwhole⟩ : ∃ whole, whole = (c :: text).takeWhile Char.isDigit := ⟨_, rfl⟩
  obtain ⟨places, hplaces⟩ :
      ∃ places, places = fraction ((c :: text).dropWhile Char.isDigit) := ⟨_, rfl⟩
  have hcut := scanNumber_parts [] (hwhole ▸ takeWhile_mem_digits text hc)
    (hplaces ▸ fraction_mem _) (fun d hd => nomatch hd)
  simp only [scanNumber, ← hwhole, ← hplaces] at h
  split at h
  · next hglued =>
    have hword : (scanNumber (c :: text)).word = whole ++ (places ++ []) := by
      simp only [scanNumber, ← hwhole, ← hplaces, List.isEmpty_iff.mp hglued, List.append_nil]
    rw [hword, hcut, ← h]
    simp [nameHead]
  · cases h

theorem scanName_alone (text : List Char) :
    scanName (scanName text).word = ⟨(scanName text).word, (scanName text).token, []⟩ := by
  have hall : ∀ c ∈ text.takeWhile isNamePart, isNamePart c = true := fun c hc =>
    List.mem_takeWhile_imp hc
  simp only [scanName, List.takeWhile_eq_self_iff.mpr hall, List.dropWhile_eq_nil_iff.mpr hall]

theorem scanMethod_alone (text : List Char) :
    scanMethod (nameHead text) = ⟨(scanMethod text).word, (scanMethod text).token, []⟩ := by
  simp only [scanMethod, nameHead_nameHead, List.drop_length]

theorem scanSymbol_alone (c : Char) (text : List Char) :
    ∃ cs, (scanSymbol c text).word = c :: cs ∧
      scanSymbol c cs = ⟨(scanSymbol c text).word, (scanSymbol c text).token, []⟩ := by
  obtain ⟨d, rest, s, rfl, hp, hscan⟩ | ⟨hpair, hscan⟩ := scanSymbol_cases c text
  · refine ⟨[d], by rw [hscan], ?_⟩
    rw [hscan, scanSymbol, hp]
  · refine ⟨[], ?_, ?_⟩
    · rw [hscan]
      cases Symbol.ofChar? c <;> rfl
    · rw [hscan, scanSymbol]
      cases Symbol.ofChar? c <;> rfl

/-- A word starts where the text does. -/
theorem exists_scan_word (c : Char) (text : List Char) : ∃ cs, (scan c text).word = c :: cs := by
  obtain ⟨d, ds, hword⟩ := List.exists_cons_of_ne_nil (scan_word_ne_nil c text)
  have hsplit := scan_split c text
  rw [hword, List.cons_append, List.cons.injEq] at hsplit
  exact ⟨ds, hsplit.1 ▸ hword⟩

/-- **A token is what its word is on its own.** -/
theorem scan_alone {c : Char} {text : List Char} {t : Token} (h : (scan c text).token = .ok t) :
    ∃ cs, (scan c text).word = c :: cs ∧ scan c cs = ⟨c :: cs, .ok t, []⟩ := by
  obtain ⟨cs, hcs⟩ := exists_scan_word c text
  refine ⟨cs, hcs, ?_⟩
  unfold scan at h hcs ⊢
  split_ifs at h hcs ⊢ with hdigit hname hquote hpoint
  · rw [← hcs, scanNumber_alone hdigit h]
  · rw [← hcs, scanName_alone, h]
  · obtain ⟨body, rest, hb, rfl⟩ | ⟨-, -, htoken⟩ := scanString_cases text
    · rw [scanString_closed hb] at h hcs
      obtain ⟨-, rfl⟩ := List.cons.inj hcs
      dsimp only at h
      rw [scanString_closed hb, h, hquote]
    · rw [htoken] at h
      cases h
  · obtain ⟨-, rfl⟩ := List.cons.inj hcs
    rw [scanMethod_alone, h, hcs]
  · obtain ⟨ds, hds, halone⟩ := scanSymbol_alone c text
    obtain ⟨-, rfl⟩ := List.cons.inj (hcs.symm.trans hds)
    rw [halone, h, hcs]

end ExprScript
