import Rhiza.Commands.Replacement

/-! # Replaced bytes and the temporary-schema guard

The tokens of a text and of its replaced form differ only in bytes outside ASCII, which none
of the guarded words has.
-/

namespace Rhiza.Commands

open Foundations Utf8

/-- Equal, or both with a byte outside ASCII. -/
def Alike (text text' : ByteString) : Prop :=
  text = text' ∨ (∃ b ∈ text, 128 ≤ b) ∧ ∃ b ∈ text', 128 ≤ b

theorem Alike.refl (text : ByteString) : Alike text text := .inl rfl

theorem Alike.cons {text text' : ByteString} (h : Alike text text') (b : UInt8) :
    Alike (b :: text) (b :: text') := by
  rcases h with rfl | ⟨⟨x, hx, hxh⟩, y, hy, hyh⟩
  · exact .inl rfl
  · exact .inr ⟨⟨x, List.mem_cons_of_mem b hx, hxh⟩, y, List.mem_cons_of_mem b hy, hyh⟩

variable {run : ByteString}

theorem alike_of_runs {run' : ByteString} (hrun : HighRun run) (hrun' : HighRun run')
    (text text' : ByteString) : Alike (run ++ text) (run' ++ text') := by
  obtain ⟨x, hx⟩ := List.exists_mem_of_ne_nil run hrun.1
  obtain ⟨y, hy⟩ := List.exists_mem_of_ne_nil run' hrun'.1
  exact .inr ⟨⟨x, List.mem_append_left _ hx, hrun.2 x hx⟩, y, List.mem_append_left _ hy,
    hrun'.2 y hy⟩

/-- A text with a byte outside ASCII folds to no ASCII word. -/
theorem equalFold_of_high {text word : ByteString} (hword : ∀ b ∈ word.map lowerByte, b < 128)
    (h : ∃ b ∈ text, 128 ≤ b) : equalFold text word = false := by
  obtain ⟨b, hb, hhigh⟩ := h
  have hlower : lowerByte b = b := by
    have h90 : ¬ (65 ≤ b ∧ b ≤ 90) := by
      rintro ⟨-, hle⟩
      exact absurd (UInt8.le_trans hhigh hle) (by decide)
    rw [lowerByte, if_neg h90]
  simp only [equalFold, decide_eq_false_iff_not]
  intro heq
  have hmem := List.mem_map_of_mem (f := lowerByte) hb
  rw [heq, hlower] at hmem
  exact absurd hhigh (UInt8.not_le.mpr (hword b hmem))

theorem Alike.equalFold {text text' word : ByteString} (h : Alike text text')
    (hword : (word.map lowerByte).all (· < 128)) : equalFold text word = equalFold text' word := by
  have hword : ∀ b ∈ word.map lowerByte, b < 128 := by simpa using hword
  rcases h with rfl | ⟨h, h'⟩
  · rfl
  · rw [equalFold_of_high hword h, equalFold_of_high hword h']

/-! ## Quoted texts -/

/-- Puts bytes in front of a quoted text. -/
def prependText (front : ByteString) (read : ByteString × ByteString) : ByteString × ByteString :=
  (front ++ read.1, read.2)

variable {close b : UInt8}

theorem quotedText_cons (hb : b ≠ close) (s : ByteString) :
    quotedText close (b :: s) = (quotedText close s).map (prependText [b]) := by
  cases s with
  | nil => simp [quotedText, hb]
  | cons => rw [quotedText, if_neg hb]; rfl

theorem quotedText_close (close : UInt8) (s : ByteString) :
    quotedText close (close :: s) =
      if close ≠ 93 ∧ startsWith (· = close) s then
        (quotedText close (s.drop 1)).map (prependText [close])
      else some ([], s) := by
  cases s with
  | nil => simp [quotedText, startsWith]
  | cons =>
    rw [quotedText, if_pos rfl]
    simp only [startsWith, List.head?_cons, Option.any_some, decide_eq_true_eq, List.drop_one,
      List.tail_cons]
    rfl

theorem quotedText_run (hclose : close < 128) (hrun : ∀ b ∈ run, 128 ≤ b) (s : ByteString) :
    quotedText close (run ++ s) = (quotedText close s).map (prependText run) := by
  induction run with
  | nil => cases h : quotedText close s <;> simp [prependText, h]
  | cons b run ih =>
    rw [List.cons_append, quotedText_cons (ne_of_high (hrun b List.mem_cons_self) hclose),
      ih fun c hc => hrun c (List.mem_cons_of_mem b hc), Option.map_map]
    rfl

/-- The readings of a quoted text before and after the replacement. -/
inductive ReadAlike : Option (ByteString × ByteString) → Option (ByteString × ByteString) → Prop
  | none : ReadAlike none none
  | some {text text' tail : ByteString} (h : Alike text text') :
    ReadAlike (some (text, tail)) (some (text', Utf8.sanitize tail))

theorem ReadAlike.prepend {read read' : Option (ByteString × ByteString)} (h : ReadAlike read read')
    {front front' : ByteString}
    (hfront : ∀ text text', Alike text text' → Alike (front ++ text) (front' ++ text')) :
    ReadAlike (read.map (prependText front)) (read'.map (prependText front')) := by
  cases h with
  | none => exact .none
  | some h => exact .some (hfront _ _ h)

theorem quotedText_sanitize (hclose : close < 128) (s : ByteString) :
    ReadAlike (quotedText close s) (quotedText close (Utf8.sanitize s)) := by
  refine sanitizeInduction (motive := fun s t =>
    ReadAlike (quotedText close s) (quotedText close t))
    .none ?_ ?_ s
  · intro b s hb ih
    by_cases hbc : b = close
    · subst hbc
      rw [quotedText_close, quotedText_close, startsWith_sanitize (eq_byte_of_high hb)]
      split
      · next hdouble =>
        rw [drop_one_sanitize (eq_byte_of_high hb) hdouble.2]
        exact (ih (s.drop 1) (by simp)).prepend fun _ _ h => h.cons b
      · exact .some (.refl [])
    · rw [quotedText_cons hbc, quotedText_cons hbc]
      exact (ih s (Nat.le_refl _)).prepend fun _ _ h => h.cons b
  · intro front front' s hrun hrun' ih
    rw [quotedText_run hclose hrun.2, quotedText_run hclose hrun'.2]
    exact (ih s (Nat.le_refl _)).prepend fun _ _ _ => alike_of_runs hrun hrun' _ _

/-! ## Tokens -/

structure SQLPolicyToken.Alike (token token' : SQLPolicyToken) : Prop where
  text : Commands.Alike token.text token'.text
  bare : token.bare = token'.bare
  symbol : token.symbol = token'.symbol

/-- The same error, or token lists that agree token by token. -/
inductive TokensAlike :
    Checked (List SQLPolicyToken) → Checked (List SQLPolicyToken) → Prop
  | error (message : String) : TokensAlike (.error message) (.error message)
  | ok {tokens tokens' : List SQLPolicyToken}
    (h : List.Forall₂ SQLPolicyToken.Alike tokens tokens') : TokensAlike (.ok tokens) (.ok tokens')

theorem TokensAlike.cons {read read' : Checked (List SQLPolicyToken)}
    (h : TokensAlike read read') {token token' : SQLPolicyToken} (htoken : token.Alike token') :
    TokensAlike (read >>= fun tokens => .ok (token :: tokens))
      (read' >>= fun tokens => .ok (token' :: tokens)) := by
  cases h with
  | error message => exact .error message
  | ok h => exact .ok (.cons htoken h)

theorem sqlNameByte_of_high (hb : 128 ≤ b) : sqlNameByte b = true := by
  simp [sqlNameByte, hb]

theorem not_mark_of_low (hb : b < 128) (s : ByteString) :
    byteOrderMark.isPrefixOf (b :: s) = false := by
  have hne : (239 == b) = false := by
    simp only [beq_eq_false_iff_ne]
    rintro rfl
    exact absurd hb (by decide)
  simp [byteOrderMark, List.isPrefixOf, hne]

variable {s : ByteString}

/-- A run outside ASCII that is no byte order mark begins a name. -/
theorem sqlPolicyTokens_run (hrun : HighRun run)
    (hmark : byteOrderMark.isPrefixOf (run ++ s) = false) :
    sqlPolicyTokens (run ++ s) =
      sqlPolicyTokens (s.dropWhile sqlNameByte) >>= fun tokens =>
        .ok (⟨run ++ s.takeWhile sqlNameByte, true, false⟩ :: tokens) := by
  obtain ⟨hne, hrun⟩ := hrun
  obtain ⟨b, run, rfl⟩ := List.exists_cons_of_ne_nil hne
  have hb := hrun b List.mem_cons_self
  have hnames : ∀ c ∈ run, sqlNameByte c = true := fun c hc =>
    sqlNameByte_of_high (hrun c (List.mem_cons_of_mem b hc))
  have hnot : ∀ c : UInt8, c < 128 → b ≠ c := fun c hc => ne_of_high hb hc
  rw [List.cons_append] at hmark ⊢
  rw [sqlPolicyTokens]
  simp only [hmark, hnot 32 (by decide), hnot 9 (by decide), hnot 13 (by decide),
    hnot 10 (by decide), hnot 12 (by decide), hnot 11 (by decide), hnot 45 (by decide),
    hnot 47 (by decide), hnot 39 (by decide), hnot 34 (by decide), hnot 96 (by decide),
    hnot 91 (by decide), hnot 63 (by decide), hnot 58 (by decide), hnot 64 (by decide),
    hnot 36 (by decide), hnot 35 (by decide), sqlNameByte_of_high hb, or_self, false_and,
    if_false, if_true, Bool.false_eq_true]
  rw [List.dropWhile_append_of_pos hnames, List.takeWhile_append_of_pos hnames]
  rfl

/-- A byte order mark is skipped. -/
theorem sqlPolicyTokens_mark (s : ByteString) :
    sqlPolicyTokens (byteOrderMark ++ s) = sqlPolicyTokens s := by
  rw [byteOrderMark, List.cons_append, sqlPolicyTokens, if_neg (by decide),
    if_pos (by simp [byteOrderMark])]
  rfl

theorem mark_eq_encode : byteOrderMark = String.utf8EncodeChar (Char.ofNat 0xFEFF) := by decide

theorem mark_of_isPrefixOf (h : byteOrderMark.isPrefixOf s = true) :
    decodeChar? s = some (Char.ofNat 0xFEFF) := by
  obtain ⟨rest, rfl⟩ := List.isPrefixOf_iff_prefix.mp h
  rw [mark_eq_encode, decodeChar?_encode_append]

theorem not_mark_encode_append {c : Char} (hc : c ≠ Char.ofNat 0xFEFF) (s : ByteString) :
    byteOrderMark.isPrefixOf (String.utf8EncodeChar c ++ s) = false := by
  rw [Bool.eq_false_iff]
  intro h
  have hgot := mark_of_isPrefixOf h
  rw [decodeChar?_encode_append] at hgot
  exact hc (Option.some.inj hgot)

theorem afterParameter_sanitize (c : UInt8) (s : ByteString) :
    afterParameter c (Utf8.sanitize s) = Utf8.sanitize (afterParameter c s) := by
  have hnames : ∀ b : UInt8, 128 ≤ b → (decide (sqlNameByte b = true ∨ b = 58)) = true := by
    intro b hb
    simp [sqlNameByte_of_high hb]
  rw [afterParameter, afterParameter, dropWhile_sanitize hnames,
    startsWith_sanitize (eq_byte_of_high (by decide)), skipPast_sanitize (by decide)]
  split <;> rfl

theorem takeWhile_name_alike (s : ByteString) :
    Alike (s.takeWhile sqlNameByte) ((Utf8.sanitize s).takeWhile sqlNameByte) := by
  refine sanitizeInduction (motive := fun s t =>
    Alike (s.takeWhile sqlNameByte) (t.takeWhile sqlNameByte)) (.refl []) ?_ ?_ s
  · intro b s _ ih
    rw [List.takeWhile_cons, List.takeWhile_cons]
    split
    · exact (ih s (Nat.le_refl _)).cons b
    · exact .refl []
  · intro front front' s hrun hrun' _
    rw [List.takeWhile_append_of_pos fun b hb => sqlNameByte_of_high (hrun.2 b hb),
      List.takeWhile_append_of_pos fun b hb => sqlNameByte_of_high (hrun'.2 b hb)]
    exact alike_of_runs hrun hrun' _ _

/-- A block comment that does not end also ends the scan. -/
def tokensAfterBlock (s : ByteString) : Checked (List SQLPolicyToken) :=
  match afterBlock? s with
  | none => .ok []
  | some tail => sqlPolicyTokens tail

def quotedToken (close : UInt8) (s : ByteString) : Checked (List SQLPolicyToken) :=
  match quotedText close s with
  | none => .error "unterminated SQL quote"
  | some (text, tail) =>
    sqlPolicyTokens tail >>= fun tokens => .ok (⟨text, false, false⟩ :: tokens)

/-- The scanner at an ASCII byte. -/
theorem sqlPolicyTokens_low {c : UInt8} (hc : c < 128) (rest : ByteString) :
    sqlPolicyTokens (c :: rest) =
      if c = 32 ∨ c = 9 ∨ c = 13 ∨ c = 10 ∨ c = 12 ∨ c = 11 then sqlPolicyTokens rest
      else if c = 45 ∧ startsWith (· = 45) rest then sqlPolicyTokens (skipLine (rest.drop 1))
      else if c = 47 ∧ startsWith (· = 42) rest then tokensAfterBlock (rest.drop 1)
      else if c = 39 ∨ c = 34 ∨ c = 96 ∨ c = 91 then quotedToken (if c = 91 then 93 else c) rest
      else if c = 63 ∨ c = 58 ∨ c = 64 ∨ c = 36 ∨ c = 35 then
        sqlPolicyTokens (afterParameter c rest) >>= fun tokens =>
          .ok (⟨[63], false, false⟩ :: tokens)
      else if sqlNameByte c then
        sqlPolicyTokens (rest.dropWhile sqlNameByte) >>= fun tokens =>
          .ok (⟨c :: rest.takeWhile sqlNameByte, true, false⟩ :: tokens)
      else sqlPolicyTokens rest >>= fun tokens => .ok (⟨[c], false, true⟩ :: tokens) := by
  rw [sqlPolicyTokens]
  simp only [not_mark_of_low hc, Bool.false_eq_true, if_false, tokensAfterBlock, quotedToken]
  refine ite_congr rfl (fun _ => rfl) fun _ => ite_congr rfl (fun _ => rfl) fun _ =>
    ite_congr rfl (fun _ => ?_) fun _ => ite_congr rfl (fun _ => ?_) fun _ => rfl
  · split <;> next h => simp only [h]
  · split <;> next h => simp only [h]

theorem sqlPolicyTokens_sanitize (s : ByteString) :
    TokensAlike (sqlPolicyTokens s) (sqlPolicyTokens (Utf8.sanitize s)) := by
  induction s using scanInduction with
  | nil =>
    rw [sanitize_nil, sqlPolicyTokens]
    exact .ok .nil
  | high c s hc ih =>
    rw [sanitize_encode_append]
    by_cases hmark : c = Char.ofNat 0xFEFF
    · rw [hmark, ← mark_eq_encode, sqlPolicyTokens_mark, sqlPolicyTokens_mark]
      exact ih s (Nat.le_refl _)
    · have hno := not_mark_encode_append hmark
      have hrun : HighRun (String.utf8EncodeChar c) :=
        ⟨String.utf8EncodeChar_ne_nil, encode_high hc⟩
      rw [sqlPolicyTokens_run hrun (hno s), sqlPolicyTokens_run hrun (hno _),
        dropWhile_sanitize fun _ hb => sqlNameByte_of_high hb]
      exact (ih _ (length_dropWhile_le _ _)).cons ⟨alike_of_runs hrun hrun _ _, rfl, rfl⟩
  | invalid b s hb ih =>
    have hrun : HighRun [b] :=
      ⟨List.cons_ne_nil b [], by simpa using high_of_decodeChar?_eq_none hb⟩
    have hrun' : HighRun (String.utf8EncodeChar replacement) :=
      ⟨String.utf8EncodeChar_ne_nil, high_of_mem_replacement⟩
    have hno : byteOrderMark.isPrefixOf ([b] ++ s) = false := by
      rw [Bool.eq_false_iff]
      intro h
      rw [List.singleton_append] at h
      rw [mark_of_isPrefixOf h] at hb
      cases hb
    rw [sanitize_invalid hb, ← List.singleton_append, sqlPolicyTokens_run hrun hno,
      sqlPolicyTokens_run hrun' (not_mark_encode_append (by decide) _),
      dropWhile_sanitize fun _ hb => sqlNameByte_of_high hb]
    exact (ih _ (length_dropWhile_le _ _)).cons ⟨alike_of_runs hrun hrun' _ _, rfl, rfl⟩
  | low c s hc ih =>
    rw [sanitize_ascii hc, sqlPolicyTokens_low hc, sqlPolicyTokens_low hc,
      startsWith_sanitize (eq_byte_of_high (by decide)),
      startsWith_sanitize (eq_byte_of_high (by decide))]
    -- Both texts take the same branch of the scanner.
    split
    · exact ih s (Nat.le_refl _)
    split
    · next hline =>
      rw [drop_one_sanitize (eq_byte_of_high (by decide)) hline.2, skipLine_sanitize]
      exact ih _ (Nat.le_trans (length_skipLine_le _) (by simp))
    split
    · next hblock =>
      rw [drop_one_sanitize (eq_byte_of_high (by decide)) hblock.2, tokensAfterBlock,
        tokensAfterBlock, afterBlock?_sanitize]
      cases hafter : afterBlock? (s.drop 1) with
      | none => exact .ok .nil
      | some tail =>
        have hshort := length_afterBlock?_lt hafter
        rw [List.length_drop] at hshort
        exact ih tail (by omega)
    split
    · have hclose : (if c = 91 then 93 else c) < 128 := by
        split
        · decide
        · exact hc
      have hread := quotedText_sanitize hclose s
      rw [quotedToken, quotedToken]
      generalize hquoted : quotedText (if c = 91 then 93 else c) s = read,
        quotedText (if c = 91 then 93 else c) (Utf8.sanitize s) = read' at hread ⊢
      cases hread with
      | none => exact .error _
      | some h => exact (ih _ (length_quotedText_lt hquoted).le).cons ⟨h, rfl, rfl⟩
    split
    · rw [afterParameter_sanitize]
      exact (ih _ (length_afterParameter_le _ _)).cons ⟨.refl _, rfl, rfl⟩
    split
    · rw [dropWhile_sanitize fun _ hb => sqlNameByte_of_high hb]
      exact (ih _ (length_dropWhile_le _ _)).cons ⟨(takeWhile_name_alike s).cons c, rfl, rfl⟩
    · exact (ih s (Nat.le_refl _)).cons ⟨.refl _, rfl, rfl⟩

/-! ## The guard -/

section Tokens

variable {token token' : SQLPolicyToken} (h : token.Alike token')

include h

theorem SQLPolicyToken.Alike.creates : token.creates = token'.creates := by
  rw [SQLPolicyToken.creates, SQLPolicyToken.creates, h.bare, h.text.equalFold (by decide)]

theorem SQLPolicyToken.Alike.temporary : token.temporary = token'.temporary := by
  rw [SQLPolicyToken.temporary, SQLPolicyToken.temporary, h.bare, h.text.equalFold (by decide),
    h.text.equalFold (by decide)]

theorem SQLPolicyToken.Alike.qualifies : token.qualifies = token'.qualifies := by
  rw [SQLPolicyToken.qualifies, SQLPolicyToken.qualifies, h.text.equalFold (by decide)]

theorem SQLPolicyToken.Alike.dot : token.dot = token'.dot := by
  have hdot : ∀ text : ByteString, (∃ b ∈ text, 128 ≤ b) → text ≠ [46] := by
    rintro text ⟨b, hb, hhigh⟩ rfl
    rw [List.mem_singleton.mp hb] at hhigh
    exact absurd hhigh (by decide)
  rw [SQLPolicyToken.dot, SQLPolicyToken.dot, h.symbol]
  rcases h.text with heq | ⟨htext, htext'⟩
  · rw [heq]
  · simp only [hdot _ htext, hdot _ htext']

end Tokens

theorem checkTempTokens_alike {tokens tokens' : List SQLPolicyToken}
    (h : List.Forall₂ SQLPolicyToken.Alike tokens tokens') :
    checkTempTokens tokens = checkTempTokens tokens' := by
  induction h with
  | nil => rfl
  | @cons token token' tokens tokens' htoken htokens ih =>
    have hnext : ∀ p : SQLPolicyToken → Bool, (∀ t t', t.Alike t' → p t = p t') →
        tokens.head?.any p = tokens'.head?.any p := by
      intro p hp
      cases htokens with
      | nil => rfl
      | cons hhead _ => exact hp _ _ hhead
    rw [checkTempTokens, checkTempTokens, ih, htoken.creates, htoken.qualifies,
      hnext _ fun _ _ h => h.temporary, hnext _ fun _ _ h => h.dot]

theorem validateReplicatedTempSQL_sanitize (s : ByteString) :
    validateReplicatedTempSQL (Utf8.sanitize s) = validateReplicatedTempSQL s := by
  have htokens := sqlPolicyTokens_sanitize s
  rw [validateReplicatedTempSQL, validateReplicatedTempSQL]
  generalize sqlPolicyTokens s = read at htokens ⊢
  generalize sqlPolicyTokens (Utf8.sanitize s) = read' at htokens ⊢
  cases htokens with
  | error => rfl
  | ok h => exact (checkTempTokens_alike h).symm

end Rhiza.Commands
