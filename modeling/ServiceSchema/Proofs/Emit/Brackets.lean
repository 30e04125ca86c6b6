import ServiceSchema.Proofs.Emit.Pieces
/-!
# Brackets outside literals and comments

A text is read from left to right, with string literals and comments told apart from code.  Brackets
of code have to be closed in the reverse order of their opening, and a literal may not run over the
end of its line.  What happens between two brackets does not depend on those that are already open,
so a text that leaves the brackets as it found them can stand anywhere in code.
-/

namespace ServiceSchema.Emit

inductive Place where
  | code
  /-- After a slash in code, which may begin a comment. -/
  | slash
  | literal
  /-- After a backslash in a literal. -/
  | escape
  | lineComment
  | blockComment
  /-- After an asterisk in a block comment. -/
  | asterisk
deriving DecidableEq

/-- How far a text has been read; the closing brackets that are awaited, the innermost first. -/
structure Scan where
  place : Place
  awaited : List Char
deriving DecidableEq

namespace Scan

def isLineBreak (c : Char) : Bool :=
  c == '\n' || c == '\r'

def closing? (c : Char) : Option Char :=
  if c = '(' then some ')' else if c = '[' then some ']' else
    if c = '\x7b' then some '\x7d' else none

def isClosing (c : Char) : Bool :=
  c == ')' || c == ']' || c == '\x7d'

/-- What is still awaited after a closing bracket, if it is the innermost one that was. -/
def close? (c : Char) : List Char → Option (List Char)
  | [] => none
  | d :: outer => if c = d then some outer else none

def inCode (awaited : List Char) (c : Char) : Option Scan :=
  if c = '"' then some ⟨.literal, awaited⟩
  else if c = '/' then some ⟨.slash, awaited⟩
  else match closing? c with
    | some d => some ⟨.code, d :: awaited⟩
    | none =>
      if isClosing c then (close? c awaited).map (mk .code) else some ⟨.code, awaited⟩

/-- Reads one character; a line break inside a literal is refused. -/
def step : Scan → Char → Option Scan
  | ⟨.code, awaited⟩, c => inCode awaited c
  | ⟨.slash, awaited⟩, c =>
    if c = '/' then some ⟨.lineComment, awaited⟩
    else if c = '*' then some ⟨.blockComment, awaited⟩
    else inCode awaited c
  | ⟨.literal, awaited⟩, c =>
    if isLineBreak c then none
    else some ⟨if c = '"' then .code else if c = '\\' then .escape else .literal, awaited⟩
  | ⟨.escape, awaited⟩, c => if isLineBreak c then none else some ⟨.literal, awaited⟩
  | ⟨.lineComment, awaited⟩, c =>
    some ⟨if isLineBreak c then .code else .lineComment, awaited⟩
  | ⟨.blockComment, awaited⟩, c =>
    some ⟨if c = '*' then .asterisk else .blockComment, awaited⟩
  | ⟨.asterisk, awaited⟩, c =>
    some ⟨if c = '/' then .code else if c = '*' then .asterisk else .blockComment, awaited⟩

/-- Reads a text; `none` if a bracket does not match or a literal is broken. -/
def read (s : Scan) (text : List Char) : Option Scan :=
  text.foldlM step s

end Scan

/-- The brackets outside literals and comments are balanced and properly nested, no literal holds a
line break, and the text ends outside literals and comments. -/
def WellBracketed (text : List Char) : Prop := Scan.read ⟨.code, []⟩ text = some ⟨.code, []⟩

instance (text : List Char) : Decidable (WellBracketed text) :=
  inferInstanceAs (Decidable (_ = _))

example : WellBracketed "f([\"(\\\")\", /* ] */ g(\x7b\x7d)]) // \"\n".toList := by decide +kernel

example : ¬ WellBracketed "f([)]".toList ∧ ¬ WellBracketed "f(\"a\nb\")".toList := by
  decide +kernel

/-! ## Texts between brackets -/

namespace Scan

variable {x y : List Char}

theorem read_append (s : Scan) (x y : List Char) :
    s.read (x ++ y) = (s.read x).bind fun t => t.read y :=
  List.foldlM_append

theorem read_cons {s t : Scan} {c : Char} (h : s.step c = some t) (x : List Char) :
    s.read (c :: x) = t.read x := by
  change s.step c >>= _ = _
  rw [h]
  rfl

theorem close?_append {awaited inner : List Char} {c : Char} (h : close? c awaited = some inner)
    (outer : List Char) : close? c (awaited ++ outer) = some (inner ++ outer) := by
  cases awaited with
  | nil => cases h
  | cons d awaited =>
      rw [List.cons_append, close?]
      rw [close?] at h
      split_ifs at h ⊢
      cases h
      rfl

theorem inCode_append {awaited : List Char} {c : Char} {t : Scan} (h : inCode awaited c = some t)
    (outer : List Char) : inCode (awaited ++ outer) c = some ⟨t.place, t.awaited ++ outer⟩ := by
  unfold inCode at h ⊢
  by_cases hquote : c = '"'
  · rw [if_pos hquote] at h ⊢
    cases h
    rfl
  by_cases hslash : c = '/'
  · rw [if_neg hquote, if_pos hslash] at h ⊢
    cases h
    rfl
  rw [if_neg hquote, if_neg hslash] at h ⊢
  cases hopening : closing? c with
  | some d =>
      simp only [hopening] at h ⊢
      cases h
      rfl
  | none =>
      simp only [hopening] at h ⊢
      by_cases hclosing : isClosing c = true
      · rw [if_pos hclosing] at h ⊢
        obtain ⟨inner, hinner, rfl⟩ := Option.map_eq_some_iff.mp h
        rw [close?_append hinner]
        rfl
      · rw [if_neg hclosing] at h ⊢
        cases h
        rfl

theorem step_append {s t : Scan} {c : Char} (h : s.step c = some t) (outer : List Char) :
    step ⟨s.place, s.awaited ++ outer⟩ c = some ⟨t.place, t.awaited ++ outer⟩ := by
  obtain ⟨place, awaited⟩ := s
  cases place with
  | code => exact inCode_append h outer
  | slash =>
      dsimp only [step] at h ⊢
      split_ifs at h ⊢
      · cases h
        rfl
      · cases h
        rfl
      · exact inCode_append h outer
  | literal | escape =>
      dsimp only [step] at h ⊢
      split_ifs at h ⊢ <;> cases h <;> rfl
  | lineComment | blockComment | asterisk =>
      cases h
      rfl

/-- Brackets that are open outside a text do not matter inside it. -/
theorem read_append_awaited {s t : Scan} (h : s.read x = some t) (outer : List Char) :
    read ⟨s.place, s.awaited ++ outer⟩ x = some ⟨t.place, t.awaited ++ outer⟩ := by
  induction x generalizing s with
  | nil =>
      cases h
      rfl
  | cons c x ih =>
      obtain ⟨u, hstep, hread⟩ := Option.bind_eq_some_iff.mp h
      exact Option.bind_eq_some_iff.mpr ⟨_, step_append hstep outer, ih hread⟩

end Scan

/-- In code, a text takes one list of awaited brackets to another, whatever is awaited outside. -/
def Takes (a : List Char) (x : List Char) (b : List Char) : Prop :=
  ∀ outer, Scan.read ⟨.code, a ++ outer⟩ x = some ⟨.code, b ++ outer⟩

/-- A text that can stand anywhere in code. -/
def Neutral (x : List Char) : Prop := Takes [] x []

variable {a b c x y z : List Char}

theorem takes_of_read (h : Scan.read ⟨.code, a⟩ x = some ⟨.code, b⟩) : Takes a x b :=
  Scan.read_append_awaited h

theorem Takes.append (hx : Takes a x b) (hy : Takes b y c) : Takes a (x ++ y) c := by
  intro outer
  rw [Scan.read_append, hx outer]
  exact hy outer

theorem Neutral.wellBracketed (h : Neutral x) : WellBracketed x := h []

theorem neutral_nil : Neutral [] := fun _ => rfl

theorem Neutral.append (hx : Neutral x) (hy : Neutral y) : Neutral (x ++ y) := Takes.append hx hy

theorem Neutral.takes (hx : Neutral x) (a : List Char) : Takes a x a := by
  intro outer
  exact hx (a ++ outer)

theorem Neutral.enclosed (hy : Neutral y) (hx : Takes [] x a) (hz : Takes a z []) :
    Neutral (x ++ y ++ z) :=
  (hx.append (hy.takes a)).append hz

theorem neutral_flatMap {α : Type} {f : α → List Char} {as : List α}
    (h : ∀ a ∈ as, Neutral (f a)) : Neutral (as.flatMap f) := by
  induction as with
  | nil => exact neutral_nil
  | cons a as ih =>
      obtain ⟨ha, has⟩ := List.forall_mem_cons.mp h
      exact ha.append (ih has)

theorem neutral_intercalate {sep : List Char} {ps : List (List Char)} (hsep : Neutral sep)
    (h : ∀ p ∈ ps, Neutral p) : Neutral (sep.intercalate ps) := by
  cases ps with
  | nil => exact neutral_nil
  | cons p ps =>
      obtain ⟨hp, hps⟩ := List.forall_mem_cons.mp h
      rw [Text.intercalate_cons_eq_flatMap]
      exact hp.append (neutral_flatMap fun q hq => hsep.append (hps q hq))

/-! ## Words -/

/-- What holds of all characters of a fixed text is decided along the text, not by going through
all characters there are. -/
scoped instance (priority := high) decidableForallMem (cs : List Char) (p : Char → Prop)
    [DecidablePred p] : Decidable (∀ c ∈ cs, p c) :=
  List.decidableBAll p cs

/-- The characters that a reader of code looks for. -/
def marks : List Char := ['"', '/', '(', ')', '[', ']', '\x7b', '\x7d']

theorem neutral_singleton {c : Char} (h : c ∉ marks) : Neutral [c] := by
  intro outer
  change Scan.inCode outer c >>= _ = _
  simp only [marks, List.mem_cons, List.not_mem_nil, or_false, not_or] at h
  simp [Scan.inCode, Scan.closing?, Scan.isClosing, h]

theorem neutral_of_notMem_marks (h : ∀ c ∈ x, c ∉ marks) : Neutral x := by
  have := neutral_flatMap fun c hc => neutral_singleton (h c hc)
  rwa [List.flatMap_singleton'] at this

theorem neutral_of_forall {p : Char → Bool} (hp : ∀ c ∈ marks, p c = false)
    (h : ∀ c ∈ x, p c = true) : Neutral x := by
  refine neutral_of_notMem_marks fun c hc hmark => ?_
  exact absurd (h c hc) (by simp [hp c hmark])

theorem neutral_text (n : Json.Number) : Neutral n.text :=
  neutral_of_forall (p := Json.isNumeralChar) (by decide)
    fun _ => Json.Number.isNumeralChar_of_mem_text

theorem neutral_countText (n : UInt64) : Neutral (countText n) :=
  neutral_of_forall (p := Char.isDigit) (by decide) fun _ => Json.isDigit_of_mem_natText

theorem neutral_identifier {o : EmitOptions} (ho : WordSuffix o) {n : String}
    (hn : isIdentifier n.toList = true) : Neutral (o.identifier n).toList :=
  neutral_of_forall (p := isWordChar) (by decide) fun _ => isWordChar_of_mem_identifier ho hn

theorem neutral_lineBreak (d : Nat) : Neutral (Json.lineBreak d) := by
  refine neutral_of_notMem_marks fun c hc => ?_
  rcases List.mem_cons.mp hc with rfl | hc
  · decide
  · rw [List.eq_of_mem_replicate hc]
    decide

/-! ## Literals -/

namespace Scan

def isLiteralChar (c : Char) : Bool :=
  c != '"' && c != '\\' && !isLineBreak c

theorem read_literal {awaited : List Char} (h : ∀ c ∈ x, isLiteralChar c = true) :
    read ⟨.literal, awaited⟩ x = some ⟨.literal, awaited⟩ := by
  induction x with
  | nil => rfl
  | cons c x ih =>
      obtain ⟨hc, hx⟩ := List.forall_mem_cons.mp h
      simp only [isLiteralChar, Bool.and_eq_true, bne_iff_ne, Bool.not_eq_true'] at hc
      have hstep : step ⟨.literal, awaited⟩ c = some ⟨.literal, awaited⟩ := by
        simp [step, hc]
      rw [read_cons hstep, ih hx]

theorem read_escaped (c : Char) (awaited : List Char) :
    read ⟨.literal, awaited⟩ (Text.escaped c) = some ⟨.literal, awaited⟩ := by
  have hbackslash : ∀ l x, isLineBreak l = false → (∀ c ∈ x, isLiteralChar c = true) →
      read ⟨.literal, awaited⟩ ('\\' :: l :: x) = some ⟨.literal, awaited⟩ := by
    intro l x hl hx
    have hstep : step ⟨.escape, awaited⟩ l = some ⟨.literal, awaited⟩ := by
      simp [step, hl]
    rw [read_cons (t := ⟨.escape, awaited⟩) rfl, read_cons hstep, read_literal hx]
  rcases Text.escaped_cases c with ⟨l, h, -, hl⟩ | ⟨h, hc⟩ | ⟨h, hquote, hback, hc⟩
  · rw [h]
    refine hbackslash l [] ?_ (List.forall_mem_nil _)
    rw [← Bool.not_eq_true]
    intro hbreak
    simp only [isLineBreak, Bool.or_eq_true, beq_iff_eq] at hbreak
    rcases hbreak with rfl | rfl <;> cases hl
  · have hhex : ∀ n < 32, ∀ d ∈ '0' :: '0' :: Text.hexByte n, isLiteralChar d = true := by
      decide
    rw [h]
    exact hbackslash 'u' _ rfl (hhex _ hc)
  · rw [h]
    refine read_literal (List.forall_mem_singleton.mpr ?_)
    have hbreak : isLineBreak c = false := by
      rw [← Bool.not_eq_true]
      intro hbreak
      simp only [isLineBreak, Bool.or_eq_true, beq_iff_eq] at hbreak
      rcases hbreak with rfl | rfl <;> exact hc (by decide)
    simp [isLiteralChar, hquote, hback, hbreak]

theorem read_flatMap_escaped (cs awaited : List Char) :
    read ⟨.literal, awaited⟩ (cs.flatMap Text.escaped) = some ⟨.literal, awaited⟩ := by
  induction cs with
  | nil => rfl
  | cons c cs ih => rw [List.flatMap_cons, read_append, read_escaped, Option.bind_some, ih]

end Scan

theorem neutral_quoted (s : String) : Neutral (Text.quoted s) := by
  intro outer
  change Scan.read ⟨.literal, outer⟩ (s.toList.flatMap Text.escaped ++ ['"']) = _
  rw [Scan.read_append, Scan.read_flatMap_escaped]
  rfl

theorem neutral_property (n : String) : Neutral (property n) := by
  unfold property
  split
  · next hn =>
      exact neutral_of_forall (p := isIdentifierRest) (by decide) fun _ =>
        isIdentifierRest_of_mem hn
  · exact neutral_quoted n

theorem neutral_quotedList (ss : List String) : Neutral (quotedList ss) := by
  have hitems : Neutral (commaList (ss.map Text.quoted)) := by
    rw [commaList_eq]
    refine neutral_intercalate (neutral_of_notMem_marks (by decide)) fun p hp => ?_
    obtain ⟨s, -, rfl⟩ := List.mem_map.mp hp
    exact neutral_quoted s
  exact hitems.enclosed (x := ['[']) (takes_of_read (a := []) rfl) (takes_of_read (b := []) rfl)

/-! ## Embedded values -/

theorem neutral_compact (j : Json) : Neutral j.compact := by
  have hcomma : Neutral [','] := neutral_of_notMem_marks (by decide)
  induction j using Json.induction_nested with
  | null => exact neutral_of_notMem_marks (by decide)
  | bool b => cases b <;> exact neutral_of_notMem_marks (by decide)
  | number n => exact neutral_text n
  | string s => exact neutral_quoted s
  | array js ih =>
      have hitems : Neutral (Json.compactItems js) := by
        rw [Json.compactItems_eq]
        refine neutral_intercalate hcomma fun p hp => ?_
        obtain ⟨j, hj, rfl⟩ := List.mem_map.mp hp
        exact ih j hj
      exact hitems.enclosed (x := ['[']) (takes_of_read (a := []) rfl) (takes_of_read (b := []) rfl)
  | object es ih =>
      have hentries : Neutral (Json.compactEntries es) := by
        rw [Json.compactEntries_eq]
        refine neutral_intercalate hcomma fun p hp => ?_
        obtain ⟨e, he, rfl⟩ := List.mem_map.mp hp
        exact (neutral_quoted e.1).append
          ((neutral_of_notMem_marks (x := [':']) (by decide)).append (ih e he))
      exact hentries.enclosed (x := ['\x7b']) (takes_of_read (a := []) rfl)
        (takes_of_read (b := []) rfl)

/-! ## Comments -/

namespace Scan

/-- A text that does not end a comment stays inside it, possibly after an asterisk. -/
theorem read_comment (r awaited : List Char) :
    (¬ ['*', '/'] <:+: r → ∃ p, (p = .blockComment ∨ p = .asterisk) ∧
      read ⟨.blockComment, awaited⟩ r = some ⟨p, awaited⟩) ∧
    (¬ ['*', '/'] <:+: '*' :: r → ∃ p, (p = .blockComment ∨ p = .asterisk) ∧
      read ⟨.asterisk, awaited⟩ r = some ⟨p, awaited⟩) := by
  induction r with
  | nil => exact ⟨fun _ => ⟨_, Or.inl rfl, rfl⟩, fun _ => ⟨_, Or.inr rfl, rfl⟩⟩
  | cons c r ih =>
      by_cases hc : c = '*'
      · subst hc
        refine ⟨fun h => ih.2 h, fun h => ih.2 fun hin => h ?_⟩
        exact hin.trans (List.suffix_cons _ _).isInfix
      · have hrest : ∀ {s : List Char}, ¬ ['*', '/'] <:+: s ++ c :: r → ¬ ['*', '/'] <:+: r :=
          fun h hin => h (hin.trans
            ((List.suffix_cons c r).trans (List.suffix_append _ _)).isInfix)
        constructor
        · intro h
          rw [read_cons (t := ⟨.blockComment, awaited⟩) (by simp [step, hc])]
          exact ih.1 (hrest (s := []) h)
        · intro h
          have hslash : c ≠ '/' := by
            rintro rfl
            exact h (List.prefix_append ['*', '/'] r).isInfix
          rw [read_cons (t := ⟨.blockComment, awaited⟩) (by simp [step, hc, hslash])]
          exact ih.1 (hrest (s := ['*']) h)

end Scan

theorem neutral_comment {r : List Char} (hr : ¬ ['*', '/'] <:+: r) :
    Neutral ("z.any() /* unsupported: ".toList ++ r ++ " */".toList) := by
  intro outer
  have hopen : Scan.read ⟨.code, outer⟩ "z.any() /* unsupported: ".toList =
      some ⟨.blockComment, outer⟩ :=
    Scan.read_append_awaited (s := ⟨.code, []⟩) (t := ⟨.blockComment, []⟩) rfl outer
  obtain ⟨p, hp, hread⟩ := (Scan.read_comment r outer).1 hr
  rw [Scan.read_append, Scan.read_append, List.nil_append, hopen, Option.bind_some, hread,
    Option.bind_some]
  rcases hp with rfl | rfl <;> rfl

end ServiceSchema.Emit
