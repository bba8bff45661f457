import Bookkeeping.Proofs.RuleText.Reader

/-!
# Layout and words, read

Passing over layout goes as far as layout goes. Every thing that a rule text is made of starts with
a character that is no layout, so there is only one place where it can stand.
-/

namespace Bookkeeping.RuleText

open Reader

variable {α β : Type} {text start rest : List Char}

section Layout

/-- A comment goes on with every character but the two that end a line. -/
theorem isCommentChar_iff {c : Char} : isCommentChar c = true ↔ c ≠ '\n' ∧ c ≠ '\r' := by
  simp [isCommentChar]

/-- A comment goes to where its line or the text ends. -/
theorem afterComment?_eq_some_iff :
    afterComment? text = some rest ↔ ∃ comment, (∀ c ∈ comment, c ≠ '\n' ∧ c ≠ '\r') ∧
      LineEnds rest ∧ text = comment ++ rest := by
  constructor
  · intro h
    obtain ⟨hcomment, hhead, hsplit⟩ := takeWhile_spec isCommentChar text
    have hends : LineEnds rest ∧ text.dropWhile isCommentChar = rest := by
      unfold afterComment? at h
      split at h
      · rename_i heq
        obtain rfl := Option.some.inj h
        exact ⟨.carriageReturn _, heq⟩
      · cases h
      · rename_i after hcarriage hreturn
        obtain rfl := Option.some.inj h
        refine ⟨?_, rfl⟩
        cases hafter : text.dropWhile isCommentChar with
        | nil => exact .textEnd
        | cons c tail =>
          -- neither end of line is left for the character
          have hc := hhead c (by rw [hafter]; rfl)
          rw [Bool.eq_false_iff, ne_eq, isCommentChar_iff, not_and_or, not_not, not_not] at hc
          rcases hc with rfl | rfl
          · exact .newline tail
          · exact absurd hafter (hreturn tail)
    refine ⟨text.takeWhile isCommentChar, fun c hc => isCommentChar_iff.1 (hcomment c hc),
      hends.1, ?_⟩
    rw [← hends.2, hsplit]
  · rintro ⟨comment, hcomment, hends, rfl⟩
    have hfront : ∀ c ∈ comment, isCommentChar c = true :=
      fun c hc => isCommentChar_iff.2 (hcomment c hc)
    have hdrop : (comment ++ rest).dropWhile isCommentChar = rest := by
      refine (takeWhile_append hfront ?_).2
      cases hends <;> simp [isCommentChar]
    rw [afterComment?, hdrop]
    cases hends <;> rfl

/-- Passing over layout passes over layout. -/
theorem layout_skipLayout (text : List Char) : Layout text (skipLayout text) := by
  fun_induction skipLayout text with
  | case1 => exact .nothing []
  | case2 c rest hc ih => exact .blank hc ih
  | case3 rest after hafter hblank ih =>
    obtain ⟨comment, hcomment, hends, rfl⟩ := afterComment?_eq_some_iff.1 hafter
    exact .comment hcomment hends ih
  | case4 => exact .nothing _
  | case5 => exact .nothing _

/-- What is left after passing over layout stands behind layout. -/
theorem layout_of_skipLayout_eq (h : skipLayout text = start) : Layout text start :=
  h ▸ layout_skipLayout text

/-- Where a layout leaves off, passing over layout goes on. -/
theorem Layout.skipLayout_eq (h : Layout text rest) : skipLayout text = skipLayout rest := by
  induction h with
  | nothing rest => rfl
  | blank hc hrest ih => rw [skipLayout, if_pos hc, ih]
  | @comment comment after rest hcomment hends hrest ih =>
    have hafter : afterComment? (comment ++ after) = some after :=
      afterComment?_eq_some_iff.2 ⟨comment, hcomment, hends, rfl⟩
    rw [skipLayout, if_neg (by decide), if_pos rfl]
    split
    · rename_i found hfound
      obtain rfl := Option.some.inj (hfound.symm.trans hafter)
      exact ih
    · rename_i hnone
      rw [hafter] at hnone
      cases hnone

/-- Behind layout there is none to pass over. -/
theorem skipLayout_idem (text : List Char) : skipLayout (skipLayout text) = skipLayout text :=
  (layout_skipLayout text).skipLayout_eq.symm

/-- Layout only takes from a text. -/
theorem Layout.length_le (h : Layout text rest) : rest.length ≤ text.length := by
  induction h with
  | nothing rest => exact Nat.le_refl _
  | blank _ _ ih => exact Nat.le_succ_of_le ih
  | comment _ _ _ ih =>
    simp only [List.length_cons, List.length_append]
    omega

/-- The text starts with no layout. -/
def Bare (text : List Char) : Prop :=
  skipLayout text = text

/-- Layout does not start with this character. -/
def isMark (c : Char) : Bool :=
  !isLayoutBlank c && c != '#'

/-- A text is bare when its first character is a mark. -/
theorem bare_cons {c : Char} (hc : isMark c = true) : Bare (c :: rest) := by
  obtain ⟨hblank, hhash⟩ : isLayoutBlank c = false ∧ c ≠ '#' := by simpa [isMark] using hc
  rw [Bare, skipLayout]
  simp [hblank, hhash]

/-- The same, told of the head of the text. -/
theorem bare_of_head {c : Char} (hhead : c ∈ text.head?) (hc : isMark c = true) : Bare text := by
  obtain ⟨rest, rfl⟩ : ∃ rest, text = c :: rest := List.head?_eq_some_iff.1 hhead
  exact bare_cons hc

/-- What a name goes on with is no layout. -/
private theorem isMark_of_isNameChar {c : Char} (h : isNameChar c = true) : isMark c = true := by
  by_contra hnot
  have hc : c ∈ [' ', '\t', '\n', '\r', '\x0c', '#'] := by
    simp only [isMark, isLayoutBlank] at hnot
    simp only [List.mem_cons, List.not_mem_nil, or_false]
    simp only [Bool.and_eq_true, Bool.not_eq_true', bne_iff_ne, Bool.or_eq_false_iff,
      decide_eq_false_iff_not] at hnot
    tauto
  have hnone : [' ', '\t', '\n', '\r', '\x0c', '#'].any isNameChar = false := by decide
  exact List.any_eq_false.1 hnone c hc h

/-- Passing over layout ends where a bare text starts. -/
theorem Layout.eq_of_bare (h : Layout text start) (hstart : Bare start) :
    skipLayout text = start :=
  h.skipLayout_eq.trans hstart

/-- Layout is always read, as far as it goes. -/
@[simp]
theorem layout_eq_ok_iff {result : Unit × List Char} :
    layout text = .ok result ↔ skipLayout text = result.2 := by
  simp [layout, Prod.ext_iff]

/-- After layout the next step reads what is left. -/
theorem layout_bind (next : Unit → Reader β) :
    (layout >>= next) text = next () (skipLayout text) :=
  rfl

/-- Layout before a text that has none cannot start with a mark. -/
theorem Layout.eq_of_isMark {c : Char} (h : Layout text start) (hstart : Bare start)
    (hhead : c ∈ text.head?) (hc : isMark c = true) : text = start := by
  rw [← h.eq_of_bare hstart, bare_of_head hhead hc]

/-- The next character after layout, if there is one, is among these. -/
def Next (marks : List Char) (text : List Char) : Prop :=
  ∀ c ∈ (skipLayout text).head?, c ∈ marks

/-- A mark behind layout is the next character. -/
theorem Layout.next {c : Char} {marks : List Char} (h : Layout text start)
    (hhead : c ∈ start.head?) (hmark : isMark c = true) (hc : c ∈ marks) : Next marks text := by
  intro d hd
  rw [h.eq_of_bare (bare_of_head hhead hmark)] at hd
  obtain rfl : c = d := Option.some.inj (hhead.symm.trans hd)
  exact hc

/-- What is among some marks is among more of them. -/
theorem Next.mono {marks others : List Char} (h : Next marks text) (hsubset : marks ⊆ others) :
    Next others text :=
  fun c hc => hsubset (h c hc)

/-- What comes first belongs to layout or is among these. -/
theorem Next.head {marks : List Char} (h : Next marks text) {c : Char} (hc : c ∈ text.head?) :
    isMark c = false ∨ c ∈ marks := by
  cases hmark : isMark c with
  | false => exact .inl rfl
  | true =>
    refine .inr (h c ?_)
    rw [bare_of_head hc hmark]
    exact hc

end Layout

/-- What takes something takes something with layout before it. -/
theorem Spaced.length_lt {form : Form α} {found : α}
    (hform : ∀ {text}, form text rest found → rest.length < text.length)
    (h : Spaced form text rest found) : rest.length < text.length := by
  obtain ⟨hlayout, hfound⟩ := h
  exact (hform hfound).trans_le hlayout.length_le

namespace Reader

variable {reader : Reader α} {form : Form α} {bound : Nat} {ends : List Char → Prop}

/-- Layout may be passed over before what is read. -/
theorem Sound.spaced (h : Sound reader form) :
    Sound (layout >>= fun _ => reader) (Spaced form) :=
  fun text rest found hread => .mk (layout_skipLayout text) (h _ rest found hread)

/-- Layout before a thing is passed over when the thing starts bare. -/
theorem Complete.spaced (h : Complete bound reader form ends)
    (hbare : ∀ text rest found, form text rest found → Bare text) :
    Complete bound (layout >>= fun _ => reader) (Spaced form) ends := by
  rintro text rest found hbound ⟨hlayout, hfound⟩ hends
  rw [layout_bind, hlayout.eq_of_bare (hbare _ _ _ hfound)]
  exact h _ _ _ (hlayout.length_le.trans_lt hbound) hfound hends

/-- A mark is read when it comes next after layout. -/
theorem mark_eq_ok_iff {c : Char} {result : Unit × List Char} :
    mark c text = .ok result ↔ skipLayout text = c :: result.2 := by
  rw [mark, layout_bind, char_eq_ok_iff]

/-- No mark is read where another one comes next. -/
theorem refuses_mark {marks : List Char} (h : Next marks text) {c : Char} (hc : c ∉ marks) :
    Refuses (mark c) text := by
  have hchar : Refuses (char c) (skipLayout text) := by
    refine (mild_char c).refuses fun result hread => hc (h c ?_)
    rw [char_eq_ok_iff.1 hread]
    rfl
  exact refuses_bind_of_ok rfl hchar

/-- A mark may be read before what is read. -/
private theorem Sound.marked (h : Sound reader form) (c : Char) :
    Sound (mark c >>= fun _ => reader) (Marked c form) := by
  intro text rest found hread
  obtain ⟨_, between, hmark, hread⟩ := steps_eq_ok_iff.1 hread
  exact .mk (layout_of_skipLayout_eq (mark_eq_ok_iff.1 hmark)) (h _ _ _ hread)

/-- A mark and what follows it are read up to where that ends. -/
private theorem Complete.marked (h : Complete bound reader form ends) {c : Char}
    (hc : isMark c = true) :
    Complete bound (mark c >>= fun _ => reader) (Marked c form) ends := by
  rintro text rest found hbound ⟨hmark, hfound⟩ hends
  have hlength := hmark.length_le
  rw [List.length_cons] at hlength
  exact steps_eq_ok_iff.2 ⟨(), _, mark_eq_ok_iff.2 (hmark.eq_of_bare (bare_cons hc)),
    h _ _ _ (by omega) hfound hends⟩

/-- A mark and what follows it take something when what follows does. -/
theorem Shrinks.marked (h : Shrinks bound form) (c : Char) : Shrinks bound (Marked c form) := by
  rintro text rest found hbound ⟨hmark, hfound⟩
  have hlength := hmark.length_le
  rw [List.length_cons] at hlength
  have hlt := h _ _ _ (by omega) hfound
  omega

/-- A reader of items reads lists of what its items are. -/
theorem Sound.listed (h : Sound reader form) :
    Sound (separated (mark ',') reader) (Listed form) := by
  intro text rest found hread
  simp only [separated, steps_eq_ok_iff, pure_eq_ok_iff, Prod.mk.injEq] at hread
  obtain ⟨first, between, hfirst, others, _, hothers, rfl, rfl⟩ := hread
  exact .mk (h _ _ _ hfirst) ((h.marked ',').many _ _ _ hothers)

/-- A list is read up to where no comma comes next. -/
theorem Complete.listed {marks : List Char} (h : Complete bound reader form (Next (',' :: marks)))
    (hshrinks : Shrinks bound form) (hmarks : ',' ∉ marks) :
    Complete bound (separated (mark ',') reader) (Listed form) (Next marks) := by
  rintro _ _ _ hbound @⟨text, between, rest, first, others, hfirst, hothers⟩ hends
  have hstarts : ∀ text rest found, Marked ',' form text rest found → Next (',' :: marks) text := by
    rintro text rest found ⟨hmark, -⟩
    exact hmark.next rfl (by decide) (List.mem_cons_self ..)
  have hshorter := hshrinks _ _ _ hbound hfirst
  have hbetween : Next (',' :: marks) between := by
    cases hothers with
    | nil => exact hends.mono (List.subset_cons_self _ _)
    | cons hnext _ => exact hstarts _ _ _ hnext
  have hread := (h.marked (by decide)).many (hshrinks.marked ',') hstarts _ _ _
    (hshorter.trans hbound) hothers
    ⟨hends.mono (List.subset_cons_self _ _), (refuses_mark hends hmarks).bind⟩
  simp only [separated, steps_eq_ok_iff, pure_eq_ok_iff, Prod.mk.injEq]
  exact ⟨_, _, h _ _ _ hbound hfirst hbetween, _, _, hread, rfl, rfl⟩

/-- A list takes what its first item takes. -/
theorem Shrinks.listed (h : Shrinks bound form) : Shrinks bound (Listed form) := by
  rintro text rest found hbound ⟨hfirst, hothers⟩
  have hshorter := h _ _ _ hbound hfirst
  exact ((h.marked ',').repeated (hshorter.trans hbound) hothers).trans_lt hshorter

end Reader

section Words

/-- The first character of a word is the first of the text. -/
theorem Word.head? {word : String} (h : Word word text rest) (hword : word.toList ≠ []) :
    text.head? = word.toList.head? := by
  rw [h.1, List.head?_append]
  cases hlist : word.toList with
  | nil => exact absurd hlist hword
  | cons c more => rfl

/-- A word only takes from a text. -/
theorem Word.length_le {word : String} (h : Word word text rest) : rest.length ≤ text.length := by
  rw [h.1, List.length_append]
  omega

/-- A word that is not empty takes something. -/
theorem Word.length_lt {word : String} (h : Word word text rest) (hword : word.toList ≠ []) :
    rest.length < text.length := by
  have hpos := List.length_pos_iff.2 hword
  rw [h.1, List.length_append]
  omega

/-- A word ends where no name goes on. -/
private theorem boundary_eq_ok_iff {result : Unit × List Char} :
    boundary text = .ok result ↔ NameEnds text ∧ text = result.2 := by
  unfold boundary NameEnds
  cases hhead : text.head? with
  | none => simp [Prod.ext_iff]
  | some c => cases hc : isNameChar c <;> simp [hc, Prod.ext_iff]

private theorem mild_boundary : Mild boundary := by
  intro text refusal h
  unfold boundary at h
  split at h
  · obtain rfl := Except.error.inj h
    rfl
  · cases h

/-- A keyword is read where the word stands and a name could not go on. -/
@[simp]
theorem keyword_eq_ok_iff {word : String} {result : Unit × List Char} :
    keyword word text = .ok result ↔ Word word text result.2 := by
  simp only [keyword, steps_eq_ok_iff, word_eq_ok_iff, boundary_eq_ok_iff, Word]
  constructor
  · rintro ⟨_, between, rfl, hends, rfl⟩
    exact ⟨rfl, hends⟩
  · rintro ⟨rfl, hends⟩
    exact ⟨(), _, rfl, hends, rfl⟩

/-- Where a keyword is refused, something else may stand. -/
theorem mild_keyword (word : String) : Mild (keyword word) :=
  (mild_word word).bind fun _ => mild_boundary

/-- Of two words with different first characters at most one is there. -/
theorem choice_keywords_eq_ok_iff {one other : String} (hother : other.toList ≠ [])
    (hheads : other.toList.head? ≠ one.toList.head?) (hone : one.toList ≠ [])
    {result : Unit × List Char} :
    choice [keyword one, keyword other] text = .ok result ↔
      Word one text result.2 ∨ Word other text result.2 := by
  change orElse (keyword one) (keyword other) text = .ok result ↔ _
  rw [orElse_eq_ok_iff, keyword_eq_ok_iff, keyword_eq_ok_iff]
  refine or_congr_right ⟨And.right, fun h => ⟨?_, h⟩⟩
  refine (mild_keyword one).refuses fun found hread => hheads ?_
  rw [← h.head? hother, (keyword_eq_ok_iff.1 hread).head? hone]

/-- A name is read where it stands, as far as it goes. -/
theorem name_eq_ok_iff {found : String} : name text = .ok (found, rest) ↔ Name text rest found := by
  constructor
  · intro h
    cases text with
    | nil => cases h
    | cons c text =>
      obtain ⟨hmore, hends, hsplit⟩ := takeWhile_spec isNameChar text
      rw [name] at h
      split at h
      · rename_i hc
        obtain ⟨rfl, rfl⟩ := Prod.mk.inj (Except.ok.inj h)
        have := Name.mk hc hmore hends
        rwa [hsplit] at this
      · cases h
  · rintro ⟨hc, hmore, hends⟩
    obtain ⟨htake, hdrop⟩ := takeWhile_append hmore hends
    rw [name, if_pos hc, htake, hdrop]

/-- A name starts with a letter or an underscore. -/
theorem Name.exists_head {found : String} (h : Name text rest found) :
    ∃ c ∈ text.head?, isNameStart c = true := by
  obtain ⟨hc, -, -⟩ := h
  exact ⟨_, rfl, hc⟩

/-- What a name starts with it may go on with. -/
private theorem isNameChar_of_isNameStart {c : Char} (h : isNameStart c = true) :
    isNameChar c = true := by
  simp only [isNameStart, isNameChar, Char.isAlphanum, Bool.or_eq_true] at h ⊢
  tauto

/-- No layout belongs to a name. -/
theorem Name.bare {found : String} (h : Name text rest found) : Bare text := by
  obtain ⟨c, hhead, hc⟩ := h.exists_head
  exact bare_of_head hhead (isMark_of_isNameChar (isNameChar_of_isNameStart hc))

/-- A name takes a character at least. -/
theorem Name.length_lt {found : String} (h : Name text rest found) : rest.length < text.length := by
  obtain ⟨-, -, -⟩ := h
  simp only [List.length_cons, List.length_append]
  omega

/-- A digit is no layout. -/
theorem isMark_of_isDigit {c : Char} (h : c.isDigit = true) : isMark c = true :=
  isMark_of_isNameChar (by simp [isNameChar, Char.isAlphanum, h])

end Words

end Bookkeeping.RuleText
