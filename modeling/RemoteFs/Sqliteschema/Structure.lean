import Mathlib.Data.List.DropRight

/-!
# The text of a schema

`Structure` and `reindent` of `sqliteschema/dump.go`.  A Go string is the list of what
`range` yields on it: its characters, and single bytes where it is not UTF-8.  The
code cuts strings only at ASCII bytes and at white space, never inside a character.
-/

namespace RemoteFs.Sqliteschema

inductive Rune where
  | char (c : Char)
  | invalid (byte : UInt8)
deriving DecidableEq

abbrev Text := List Rune

def text (s : String) : Text := s.toList.map .char

def blank : Rune := .char ' '
def newline : Rune := .char '\n'
def tab : Rune := .char '\t'

/-- `unicode.IsSpace` -/
def isSpace : Rune → Bool
  | .char c =>
    9 ≤ c.toNat && c.toNat ≤ 13 || 0x2000 ≤ c.toNat && c.toNat ≤ 0x200a ||
      [0x20, 0x85, 0xa0, 0x1680, 0x2028, 0x2029, 0x202f, 0x205f, 0x3000].contains c.toNat
  | .invalid _ => false

inductive Kind where
  | quote
  | mark
  | space
  | plain
deriving DecidableEq

/-- The cases of the switch in `Structure`; the default is white space or not. -/
def kind (c : Rune) : Kind :=
  if c ∈ text "'\"`" then .quote
  else if c ∈ text "()," then .mark
  else if isSpace c then .space
  else .plain

/-- A word, unless nothing of it has been read. -/
def flush (word : Text) : List Text := if word = [] then [] else [word]

def fieldStep (found : List Text × Text) (c : Rune) : List Text × Text :=
  if isSpace c then (found.1 ++ flush found.2, []) else (found.1, found.2 ++ [c])

/-- The words that end in a text, and the word that is still being read. -/
def readFields (plain : Text) : List Text × Text := plain.foldl fieldStep ([], [])

/-- `strings.Fields` -/
def fields (plain : Text) : List Text := (readFields plain).1 ++ flush (readFields plain).2

/-- How much of the text after an opening quote belongs to the run. -/
def pastClosingQuote (quote : Rune) : Text → ℕ
  | [] => 0
  | [_] => 1
  | c :: d :: rest =>
    if c ≠ quote then pastClosingQuote quote (d :: rest) + 1
    else if d = quote then pastClosingQuote quote rest + 2
    else 1

/-- The loop of `Structure`: what of the text is already behind the index, the plain
text since the last flush, and the text. -/
def scan : ℕ → Text → Text → List Text
  | _, plain, [] => fields plain
  | behind + 1, plain, _ :: rest => scan behind plain rest
  | 0, plain, c :: rest =>
    match kind c with
    | .quote =>
      fields plain ++ (c :: rest.take (pastClosingQuote c rest)) ::
        scan (pastClosingQuote c rest) [] rest
    | .mark => scan 0 (plain ++ [blank, c, blank]) rest
    | _ => scan 0 (plain ++ [c]) rest

def join (tokens : List Text) : Text := [blank].intercalate tokens

def Structure (dump : Text) : Text := join (scan 0 [] dump)

def trimSpace (line : Text) : Text := (line.dropWhile isSpace).rdropWhile isSpace

def reindentLine (i : ℕ) (line : Text) : Text :=
  if 0 < i ∧ (trimSpace line).head? ≠ some (.char ')') then tab :: trimSpace line
  else trimSpace line

def reindent (statement : Text) : Text :=
  [newline].intercalate ((statement.splitOn newline).mapIdx reindentLine)

/-! ## Tokens -/

/-- What follows an opening quote, up to its closing quote or, for want of one, to the
end of the text. -/
inductive Quoted (quote : Rune) : Bool → Text → Prop where
  | other (hne : c ≠ quote) (hbo : Quoted quote closed body) : Quoted quote closed (c :: body)
  | doubled (hbo : Quoted quote closed body) : Quoted quote closed (quote :: quote :: body)
  | closing : Quoted quote true [quote]
  | missing : Quoted quote false []

/-- A text splits into tokens: quoted runs as they stand, brackets and commas, and
words between white space.  Only a loose text may leave its last run unclosed. -/
inductive Splits (loose : Prop) : Text → List Text → Prop where
  | nil : Splits loose [] []
  | space (hki : kind c = .space) (hre : Splits loose rest ts) : Splits loose (c :: rest) ts
  | mark (hki : kind c = .mark) (hre : Splits loose rest ts) :
      Splits loose (c :: rest) ([c] :: ts)
  | word (hwo : word ≠ []) (hki : ∀ c ∈ word, kind c = .plain)
      (hend : ∀ c ∈ rest.head?, kind c ≠ .plain) (hre : Splits loose rest ts) :
      Splits loose (word ++ rest) (word :: ts)
  | run (hki : kind c = .quote) (hbo : Quoted c true body)
      (hend : ∀ d ∈ rest.head?, d ≠ c) (hre : Splits loose rest ts) :
      Splits loose (c :: body ++ rest) ((c :: body) :: ts)
  | unclosed (hloose : loose) (hki : kind c = .quote) (hbo : Quoted c false body) :
      Splits loose (c :: body) [c :: body]

/-- The tokens in one pass, with the word that is being read. -/
def tokens : ℕ → Text → Text → List Text
  | _, word, [] => flush word
  | behind + 1, word, _ :: rest => tokens behind word rest
  | 0, word, c :: rest =>
    match kind c with
    | .quote =>
      flush word ++ (c :: rest.take (pastClosingQuote c rest)) ::
        tokens (pastClosingQuote c rest) [] rest
    | .mark => flush word ++ [c] :: tokens 0 [] rest
    | .space => flush word ++ tokens 0 [] rest
    | .plain => tokens 0 (word ++ [c]) rest

variable {loose : Prop} {s rest body word : Text} {ts us : List Text} {c q : Rune} {closed : Bool}

lemma isSpace_eq (c : Rune) : isSpace c = decide (kind c = .space) := by
  have hothers : ∀ c ∈ text "'\"`" ++ text "(),", isSpace c = false := by decide
  unfold kind
  split_ifs with hquote hmark hspace
  · exact hothers c (List.mem_append_left _ hquote)
  · exact hothers c (List.mem_append_right _ hmark)
  · exact hspace
  · exact Bool.not_eq_true _ ▸ hspace

lemma scan_eq_tokens (behind : ℕ) (plain rest : Text) : scan behind plain rest =
      (readFields plain).1 ++ tokens behind (readFields plain).2 rest := by
  induction rest generalizing behind plain with
  | nil => cases behind <;> rfl
  | cons c rest ih =>
    cases behind with
    | succ behind => exact ih behind plain
    | zero =>
      have hstep : ∀ xs, readFields (plain ++ xs) = xs.foldl fieldStep (readFields plain) :=
        fun xs => List.foldl_append
      cases hki : kind c with
      | quote =>
        simp only [scan, tokens, hki, ih, fields, List.append_assoc]
        rfl
      | mark =>
        -- the blanks around a bracket end the word before it and the bracket itself
        have hblank : isSpace blank = true := rfl
        simp [scan, tokens, hki, ih, hstep, fieldStep, hblank, isSpace_eq c, flush]
      | space | plain => simp [scan, tokens, hki, ih, hstep, fieldStep, isSpace_eq]

lemma tokens_skip (word body rest : Text) :
    tokens body.length word (body ++ rest) = tokens 0 word rest := by
  induction body with
  | nil => rfl
  | cons c body ih => exact ih

/-- A word ends where something else than a plain rune follows. -/
lemma tokens_word (word : Text) (hend : ∀ c ∈ rest.head?, kind c ≠ .plain) :
    tokens 0 word rest = flush word ++ tokens 0 [] rest := by
  cases rest with
  | nil => exact (List.append_nil _).symm
  | cons c rest =>
    unfold tokens
    cases hki : kind c with
    | plain => exact absurd hki (hend c rfl)
    | quote | mark | space => rfl

lemma tokens_plain (found : Text) (hki : ∀ c ∈ word, kind c = .plain) :
    tokens 0 found (word ++ rest) = tokens 0 (found ++ word) rest := by
  induction word generalizing found with
  | nil => simp
  | cons c word ih =>
    obtain ⟨hc, hwo⟩ := List.forall_mem_cons.mp hki
    rw [List.cons_append, tokens, hc]
    simp [ih _ hwo]

lemma Quoted.past (h : Quoted q closed body) (hopen : closed = false → rest = [])
    (hend : ∀ d ∈ rest.head?, d ≠ q) : pastClosingQuote q (body ++ rest) = body.length := by
  induction h with
  | missing => rw [hopen rfl]; rfl
  | closing =>
    cases rest with
    | nil => rfl
    | cons d rest => simp [pastClosingQuote, hend d rfl]
  | doubled hbo ih => simp [pastClosingQuote, ih hopen]
  | @other c closed body hne hbo ih =>
    have hlonger := ih hopen
    cases hcases : body ++ rest with
    | nil =>
      obtain ⟨rfl, rfl⟩ := List.append_eq_nil_iff.mp hcases
      rfl
    | cons d more =>
      rw [hcases] at hlonger
      simp [hcases, pastClosingQuote, hne, hlonger]

lemma quoted_take (q : Rune) (s : Text) :
    let n := pastClosingQuote q s
    Quoted q true (s.take n) ∧ (∀ d ∈ (s.drop n).head?, d ≠ q) ∨
      Quoted q false (s.take n) ∧ s.drop n = [] := by
  fun_induction pastClosingQuote q s with
  | case1 => exact .inr ⟨.missing, rfl⟩
  | case2 c =>
    by_cases heq : c = q
    · exact .inl ⟨heq ▸ .closing, by simp⟩
    · exact .inr ⟨.other heq .missing, rfl⟩
  | case3 c d rest hne ih => exact ih.imp (.imp_left (.other hne)) (.imp_left (.other hne))
  | case4 c rest heq ih =>
    obtain rfl := not_not.mp heq
    exact ih.imp (.imp_left .doubled) (.imp_left .doubled)
  | case5 c d rest heq hne =>
    obtain rfl := not_not.mp heq
    exact .inl ⟨.closing, by simpa using hne⟩

/-- A text splits in one way at most. -/
lemma Splits.tokens_eq (h : Splits loose s ts) : tokens 0 [] s = ts := by
  induction h with
  | nil => rfl
  | space hki hre ih => rw [tokens, hki, ← ih]; rfl
  | mark hki hre ih => rw [tokens, hki, ← ih]; rfl
  | word hwo hki hend hre ih =>
    rw [tokens_plain [] hki, List.nil_append, tokens_word _ hend, ih, flush, if_neg hwo]
    rfl
  | run hki hbo hend hre ih =>
    have hpast := hbo.past (by simp) hend
    rw [List.cons_append, tokens, hki]
    simp only [hpast, tokens_skip, List.take_left, ih]
    rfl
  | @unclosed c body hloose hki hbo =>
    have hpast := hbo.past (fun _ => rfl) (by simp)
    have hskip := tokens_skip [] body []
    rw [List.append_nil] at hpast hskip
    rw [tokens, hki]
    simp only [hpast, hskip, List.take_length]
    rfl

lemma Splits.flush (hki : ∀ c ∈ word, kind c = .plain)
    (hend : ∀ c ∈ rest.head?, kind c ≠ .plain) (hre : Splits loose rest ts) :
    Splits loose (word ++ rest) (Sqliteschema.flush word ++ ts) := by
  unfold Sqliteschema.flush
  split_ifs with hwo
  · rwa [hwo]
  · exact .word hwo hki hend hre

/-- Every text splits. -/
lemma splits_tokens (behind : ℕ) (word s : Text) (hwo : ∀ c ∈ word, kind c = .plain) :
    Splits True (word ++ s.drop behind) (tokens behind word s) := by
  fun_induction tokens behind word s with
  | case1 => simpa using Splits.flush hwo (by simp) .nil
  | case2 _ _ _ _ ih => exact ih hwo
  | case3 word c rest hki ih =>
    have hre := ih (by simp)
    refine .flush hwo (by simp [hki]) ?_
    rcases quoted_take c rest with ⟨hbo, hend⟩ | ⟨hbo, hnone⟩
    · have hrun := Splits.run hki hbo hend hre
      rwa [List.cons_append, List.take_append_drop] at hrun
    -- without a closing quote the run is the rest of the text, and nothing follows it
    · have hwhole := List.take_append_drop (pastClosingQuote c rest) rest
      rw [hnone, List.append_nil] at hwhole
      rw [hnone] at hre
      rw [← hre.tokens_eq, hwhole]
      exact .unclosed True.intro hki (hwhole ▸ hbo)
  | case4 word c rest hki ih => exact .flush hwo (by simp [hki]) (.mark hki (ih (by simp)))
  | case5 word c rest hki ih => exact .flush hwo (by simp [hki]) (.space hki (ih (by simp)))
  | case6 word c rest hki ih =>
    have hlonger := ih (by simpa [or_imp, forall_and] using ⟨hwo, hki⟩)
    rwa [List.append_assoc] at hlonger

/-! ## Joined tokens -/

lemma cons_intercalate (c : Rune) (parts : List Text) (hparts : parts ≠ []) :
    c :: [c].intercalate parts = parts.flatMap (c :: ·) := by
  induction parts with
  | nil => exact absurd rfl hparts
  | cons part parts ih =>
    cases parts with
    | nil => simp
    | cons next parts => simp [← ih (List.cons_ne_nil next parts)]

lemma kind_of_head (hki : kind c = .space) (parts : List Text) :
    ∀ d ∈ (parts.flatMap (c :: ·)).head?, kind d = .space := by
  cases parts with
  | nil => simp
  | cons part parts => simp [hki]

/-- Tokens with white space before each split into the same tokens again. -/
lemma Splits.spaced (h : Splits loose s ts) : Splits loose (ts.flatMap (blank :: ·)) ts := by
  have hblank : kind blank = .space := rfl
  induction h with
  | nil => exact .nil
  | space _ _ ih => exact ih
  | mark hki _ ih => exact .space hblank (.mark hki ih)
  | word hwo hki _ _ ih =>
    refine .space hblank (.word hwo hki (fun c hc => ?_) ih)
    simp [kind_of_head hblank _ c hc]
  | run hki hbo _ _ ih =>
    -- what stands behind the run is a blank, so no quote is doubled by joining
    refine .space hblank (.run hki hbo (fun d hd heq => ?_) ih)
    cases (kind_of_head hblank _ d hd).symm.trans (heq ▸ hki)
  | unclosed hloose hki hbo => simpa using Splits.space hblank (.unclosed hloose hki hbo)

lemma Splits.tokens_intercalate {parts : List Text} (hki : kind c = .space)
    (h : Splits loose (parts.flatMap (c :: ·)) ts) :
    tokens 0 [] ([c].intercalate parts) = ts := by
  cases parts with
  | nil => exact h.tokens_eq
  | cons part parts =>
    have heq := h.tokens_eq
    rw [← cons_intercalate c _ (List.cons_ne_nil part parts), tokens, hki] at heq
    exact heq

lemma Splits.tokens_join (h : Splits loose s ts) : tokens 0 [] (join ts) = ts :=
  h.spaced.tokens_intercalate rfl

lemma structure_eq (s : Text) : Structure s = join (tokens 0 [] s) := by
  rw [Structure, scan_eq_tokens]
  rfl

/-! ## Lines -/

lemma forall_head_append {p : Rune → Prop} (hs : ∀ c ∈ s.head?, p c)
    (hre : ∀ c ∈ rest.head?, p c) : ∀ c ∈ (s ++ rest).head?, p c := by
  cases s with
  | nil => exact hre
  | cons c s => exact hs

/-- The quote of the run that is open behind a text, which begins within the given one.
A doubled quote closes a run and opens it again. -/
def opened : Option Rune → Text → Option Rune
  | run, [] => run
  | none, c :: rest => opened (if kind c = .quote then some c else none) rest
  | some q, c :: rest => opened (if c = q then none else some q) rest

/-- Inside a run a line begins with the white space that `reindent` writes, and a line
that leaves a run open has none at its end. -/
def Kept : ℕ → Option Rune → List Text → Prop
  | _, _, [] => True
  | i, run, line :: rest =>
    (run ≠ none → line.takeWhile isSpace ++ trimSpace line = reindentLine i line) ∧
      (opened run line ≠ none → line.dropWhile isSpace = trimSpace line) ∧
      Kept (i + 1) (opened run line) rest

/-- The open run at the end of a text that begins outside of one. -/
def Pending : Option Rune → Text → Prop
  | none, p => p = []
  | some q, p => ∃ body, p = q :: body ∧ kind q = .quote ∧ Quoted q false body

lemma opened_append (run : Option Rune) (s rest : Text) :
    opened run (s ++ rest) = opened (opened run s) rest := by
  induction s generalizing run with
  | nil => rfl
  | cons c s ih => cases run <;> exact ih _

lemma opened_calm (hcalm : ∀ c ∈ word, kind c ≠ .quote) (run : Option Rune)
    (hrun : ∀ q ∈ run, kind q = .quote) : opened run word = run := by
  induction word with
  | nil => cases run <;> rfl
  | cons c word ih =>
    obtain ⟨hc, hwo⟩ := List.forall_mem_cons.mp hcalm
    cases run with
    | none => simpa [opened, hc] using ih hwo
    | some q =>
      have hne : c ≠ q := fun heq => hc (heq ▸ hrun q rfl)
      simpa [opened, hne] using ih hwo

lemma Quoted.opened_eq (h : Quoted q closed body) (hq : kind q = .quote) :
    opened (some q) body = if closed then none else some q := by
  induction h with
  | other hne _ ih => simpa [opened, hne] using ih
  | doubled _ ih => simpa [opened, hq] using ih
  | closing => simp [opened]
  | missing => rfl

lemma Quoted.append (h : Quoted q false s) (hre : Quoted q closed rest) :
    Quoted q closed (s ++ rest) := by
  generalize hopen : false = before at h
  induction h with
  | other hne _ ih => exact .other hne (ih hopen)
  | doubled _ ih => exact .doubled (ih hopen)
  | closing => cases hopen
  | missing => exact hre

lemma quoted_spaces (hq : kind q = .quote) (hspaces : ∀ c ∈ word, isSpace c = true) :
    Quoted q false word := by
  induction word with
  | nil => exact .missing
  | cons c word ih =>
    obtain ⟨hc, hwo⟩ := List.forall_mem_cons.mp hspaces
    refine .other (fun heq => ?_) (ih hwo)
    simp [heq, isSpace_eq, hq] at hc

/-- The tokens of a text up to the run that it leaves open. -/
lemma Splits.pending (h : Splits loose s ts) :
    ∃ us p, Pending (opened none s) p ∧ ∀ rest, (∀ c ∈ rest.head?, kind c = .space) →
      tokens 0 [] (s ++ rest) = us ++ tokens 0 [] (p ++ rest) := by
  induction h with
  | nil => exact ⟨[], [], rfl, fun _ _ => rfl⟩
  | space hki _ ih =>
    obtain ⟨us, p, hp, heq⟩ := ih
    refine ⟨us, p, by simpa [opened, hki] using hp, fun rest hre => ?_⟩
    rw [List.cons_append, tokens, hki]
    exact heq rest hre
  | @mark c _ _ hki _ ih =>
    obtain ⟨us, p, hp, heq⟩ := ih
    refine ⟨[c] :: us, p, by simpa [opened, hki] using hp, fun rest hre => ?_⟩
    rw [List.cons_append, tokens, hki, List.cons_append, ← heq rest hre]
    rfl
  | @word word more _ hwo hki hend _ ih =>
    obtain ⟨us, p, hp, heq⟩ := ih
    have hcalm : opened none word = none := opened_calm (by simp +contextual [hki]) _ (by simp)
    refine ⟨word :: us, p, by rwa [opened_append, hcalm], fun rest hre => ?_⟩
    have hend' : ∀ c ∈ (more ++ rest).head?, kind c ≠ .plain :=
      forall_head_append hend fun c hc => by simp [hre c hc]
    rw [List.append_assoc, tokens_plain [] hki, List.nil_append, tokens_word _ hend',
      heq rest hre, Sqliteschema.flush, if_neg hwo]
    rfl
  | @run c body _ _ hki hbo hend _ ih =>
    obtain ⟨us, p, hp, heq⟩ := ih
    refine ⟨(c :: body) :: us, p, ?_, fun rest hre => ?_⟩
    · rw [List.cons_append, opened, if_pos hki, opened_append, hbo.opened_eq hki]
      exact hp
    have hpast := hbo.past (by simp) (forall_head_append hend fun d hd heq => by
      cases (hre d hd).symm.trans (heq ▸ hki))
    rw [List.append_assoc, List.cons_append, tokens, hki]
    simp only [hpast, tokens_skip, List.take_left, heq rest hre]
    rfl
  | @unclosed c body _ hki hbo =>
    refine ⟨[], c :: body, ?_, fun _ _ => rfl⟩
    rw [opened, if_pos hki, hbo.opened_eq hki]
    exact ⟨body, rfl, hki, hbo⟩

lemma splits_self (s : Text) : Splits True s (tokens 0 [] s) := splits_tokens 0 [] s (by simp)

lemma tokens_spaces (hspaces : ∀ c ∈ word, isSpace c = true) (s : Text) :
    tokens 0 [] (word ++ s) = tokens 0 [] s := by
  induction word with
  | nil => rfl
  | cons c word ih =>
    obtain ⟨hc, hwo⟩ := List.forall_mem_cons.mp hspaces
    have hki : kind c = .space := by simpa [isSpace_eq] using hc
    rw [List.cons_append, tokens, hki]
    exact ih hwo

/-- A closed run is one token of the text that begins with it. -/
lemma Quoted.tokens_eq (h : Quoted q true body) (hq : kind q = .quote)
    (hend : ∀ d ∈ rest.head?, d ≠ q) :
    tokens 0 [] (q :: body ++ rest) = (q :: body) :: tokens 0 [] rest := by
  have hpast := h.past (by simp) hend
  rw [List.cons_append, tokens, hq]
  simp only [hpast, tokens_skip, List.take_left]
  rfl

lemma append_newline_inj {x y : Text} (hx : newline ∉ x) (hy : newline ∉ y) (s s' : Text) :
    s ++ newline :: x = s' ++ newline :: y ↔ s = s' ∧ x = y := by
  refine ⟨fun heq => ?_, by rintro ⟨rfl, rfl⟩; rfl⟩
  rcases List.append_eq_append_iff.mp heq with ⟨more, rfl, h⟩ | ⟨more, rfl, h⟩ <;>
    cases more with
    | nil => simp_all
    | cons c more => simp_all

/-- A line is what is kept of it between white space. -/
lemma line_cases (i : ℕ) (line : Text) :
    ∃ w v ind, line = w ++ (trimSpace line ++ v) ∧ reindentLine i line = ind ++ trimSpace line ∧
      line.takeWhile isSpace = w ∧ (∀ c ∈ w, isSpace c = true) ∧ (∀ c ∈ v, isSpace c = true) ∧
      (∀ c ∈ ind, isSpace c = true) ∧ newline ∉ ind ∧
      (line.dropWhile isSpace = trimSpace line ↔ v = []) ∧
      (line = reindentLine i line ↔ w = ind ∧ v = []) := by
  set core := line.dropWhile isSpace
  set t := trimSpace line with ht
  let v := (core.reverse.takeWhile isSpace).reverse
  let ind := if 0 < i ∧ t.head? ≠ some (.char ')') then [tab] else []
  have hcore : t ++ v = core := by
    rw [ht, trimSpace, List.rdropWhile, ← List.reverse_append, List.takeWhile_append_dropWhile,
      List.reverse_reverse]
  have hwhole : line = line.takeWhile isSpace ++ (t ++ v) := by
    rw [hcore, List.takeWhile_append_dropWhile]
  have hnew : reindentLine i line = ind ++ t := by
    simp only [reindentLine, ind, ← ht]
    split_ifs <;> rfl
  have hv : ∀ c ∈ v, isSpace c = true :=
    fun c hc => List.mem_takeWhile_imp (List.mem_reverse.mp hc)
  have hind : ∀ c ∈ ind, isSpace c = true ∧ c ≠ newline := by
    simp only [ind]
    split_ifs
    · simp only [List.forall_mem_singleton]
      decide
    · simp
  have hstart : t.takeWhile isSpace = [] := by
    cases hcase : t with
    | nil => rfl
    | cons c more =>
      have hhead := List.head?_dropWhile_not isSpace line
      rw [show line.dropWhile isSpace = t ++ v from hcore.symm, hcase] at hhead
      exact List.takeWhile_cons_of_neg (by simpa using hhead)
  refine ⟨line.takeWhile isSpace, v, ind, hwhole, hnew, rfl,
    fun c hc => List.mem_takeWhile_imp hc, hv, fun c hc => (hind c hc).1,
    fun hc => (hind _ hc).2 rfl, by rw [← hcore]; simp, fun heq => ?_, ?_⟩
  · rw [hnew] at heq
    have hw : line.takeWhile isSpace = ind := by
      conv_lhs => rw [heq]
      rw [List.takeWhile_append_of_pos fun c hc => (hind c hc).1, hstart, List.append_nil]
    rw [hwhole, hw] at heq
    exact ⟨hw, by simpa using heq⟩
  · rintro ⟨hw, hnone⟩
    conv_lhs => rw [hwhole]
    rw [hnew, hw, hnone, List.append_nil]

lemma opened_quote (run : Option Rune) (hrun : ∀ q ∈ run, kind q = .quote) (s : Text) :
    ∀ q ∈ opened run s, kind q = .quote := by
  induction s generalizing run with
  | nil => cases run <;> exact hrun
  | cons c s ih =>
    cases run with
    | none =>
      refine ih _ ?_
      split_ifs with hc <;> simp [hc]
    | some q =>
      refine ih _ ?_
      split_ifs <;> simp [hrun q rfl]

lemma opened_spaces (hspaces : ∀ c ∈ word, isSpace c = true) (run : Option Rune)
    (hrun : ∀ q ∈ run, kind q = .quote) : opened run word = run := by
  refine opened_calm (fun c hc hquote => ?_) run hrun
  simpa [isSpace_eq, hquote] using hspaces c hc

section

variable {w v t r : Text} {A B : Text} {Rest : Option Rune → Prop}

/-- What stands behind a text that begins outside of a run. -/
lemma outside_iff (hv : ∀ c ∈ v, isSpace c = true)
    (hA : ∀ c ∈ A.head?, kind c = .space) (hB : ∀ c ∈ B.head?, kind c = .space)
    (ih : ∀ {run p p'}, Pending run p → Pending run p' →
      (tokens 0 [] (p ++ A) = tokens 0 [] (p' ++ B) ↔ p = p' ∧ Rest run)) (r : Text) :
    tokens 0 [] (r ++ (v ++ A)) = tokens 0 [] (r ++ B) ↔
      (opened none r ≠ none → v = []) ∧ Rest (opened none r) := by
  obtain ⟨us, p, hp, heq⟩ := (splits_self r).pending
  have hvA : ∀ c ∈ (v ++ A).head?, kind c = .space := forall_head_append
    (fun c hc => by simpa [isSpace_eq] using hv c (List.mem_of_mem_head? hc)) hA
  rw [heq _ hvA, heq _ hB, List.append_cancel_left_eq]
  cases hrun : opened none r with
  | none =>
    rw [hrun] at hp
    obtain rfl : p = [] := hp
    rw [List.nil_append, tokens_spaces hv]
    simpa using @ih none [] [] rfl rfl
  | some q =>
    rw [hrun] at hp
    obtain ⟨body, rfl, hq, hbo⟩ := hp
    have hmore : Pending (some q) (q :: body ++ v) :=
      ⟨body ++ v, rfl, hq, hbo.append (quoted_spaces hq hv)⟩
    rw [← List.append_assoc, ih hmore ⟨body, rfl, hq, hbo⟩]
    simp

end

/-- Two statements, one of whose lines are re-indented, split alike exactly when the
open runs before them are the same and the lines keep what is within runs.  The open
run is carried through the lines. -/
lemma lines_iff {lines : List Text} (hlines : ∀ line ∈ lines, newline ∉ line) (i : ℕ)
    {run : Option Rune} {p p' : Text} (hp : Pending run p) (hp' : Pending run p') :
    tokens 0 [] (p ++ lines.flatMap (newline :: ·)) = tokens 0 [] (p' ++
        (lines.mapIdx fun j => reindentLine (j + i)).flatMap (newline :: ·)) ↔
      p = p' ∧ Kept i run lines := by
  induction lines generalizing i run p p' with
  | nil =>
    simp only [List.mapIdx_nil, List.flatMap_nil, List.append_nil, Kept, and_true]
    cases run with
    | none =>
      obtain rfl : p = [] := hp
      obtain rfl : p' = [] := hp'
      simp
    | some q =>
      obtain ⟨body, rfl, hq, hbo⟩ := hp
      obtain ⟨body', rfl, -, hbody'⟩ := hp'
      rw [(Splits.unclosed True.intro hq hbo).tokens_eq,
        (Splits.unclosed True.intro hq hbody').tokens_eq]
      simp
  | cons line lines ih =>
    obtain ⟨hline, hre⟩ := List.forall_mem_cons.mp hlines
    have hshift : (fun j => reindentLine (j + 1 + i)) = fun j => reindentLine (j + (i + 1)) := by
      funext j
      congr 1
      omega
    simp only [List.mapIdx_cons, List.flatMap_cons, Nat.zero_add, Kept, hshift]
    have hA := kind_of_head (c := newline) rfl lines
    have hB := kind_of_head (c := newline) rfl (lines.mapIdx fun j => reindentLine (j + (i + 1)))
    have ih' := @ih hre (i + 1)
    generalize lines.flatMap (newline :: ·) = A at hA ih' ⊢
    generalize (lines.mapIdx fun j => reindentLine (j + (i + 1))).flatMap (newline :: ·) = B
      at hB ih' ⊢
    obtain ⟨w, v, ind, hold, hnew, hw, hws, hvs, hinds, hindn, hend, hsame⟩ :=
      line_cases i line
    set t := trimSpace line
    rw [hw, hnew, List.append_left_inj, hend]
    have hfew : newline ∉ w ∧ newline ∉ t ∧ newline ∉ v := by
      rw [hold] at hline
      simpa using hline
    cases run with
    | none =>
      obtain rfl : p = [] := hp
      obtain rfl : p' = [] := hp'
      have hopened : opened none line = opened none t := by
        rw [hold, opened_append, opened_spaces hws _ (by simp), opened_append,
          opened_spaces hvs _ (opened_quote _ (by simp) t)]
      have hbreak : ∀ {word}, (∀ c ∈ word, isSpace c = true) →
          ∀ c ∈ newline :: word, isSpace c = true := fun h => List.forall_mem_cons.mpr ⟨rfl, h⟩
      have hleft := tokens_spaces (hbreak hws) (t ++ (v ++ A))
      have hright := tokens_spaces (hbreak hinds) (t ++ B)
      rw [hopened, hold]
      simp only [List.cons_append, List.append_assoc, List.nil_append] at hleft hright ⊢
      rw [hleft, hright, outside_iff hvs hA hB ih' t]
      simp
    | some q =>
      obtain ⟨body, rfl, hq, hbo⟩ := hp
      obtain ⟨body', rfl, -, hbody'⟩ := hp'
      have hnq : newline ≠ q := fun heq => by simp [← heq] at hq; cases hq
      rcases quoted_take q t with ⟨hb, hr⟩ | ⟨hb, hnone⟩
      · -- the run ends within the line
        have htake := List.take_append_drop (pastClosingQuote q t) t
        generalize t.take (pastClosingQuote q t) = b at hb htake
        generalize t.drop (pastClosingQuote q t) = r at hr htake
        have hopened : opened (some q) line = opened none r := by
          rw [hold, ← htake, opened_append, opened_spaces hws _ (by simpa using hq),
            List.append_assoc, opened_append, hb.opened_eq hq, if_pos rfl, opened_append,
            opened_spaces hvs _ (opened_quote _ (by simp) r)]
        have hrun : ∀ {body word}, Quoted q false body → (∀ c ∈ word, isSpace c = true) →
            Quoted q true (body ++ newline :: (word ++ b)) := fun h hwo =>
          h.append (.other hnq ((quoted_spaces hq hwo).append hb))
        have hne : ∀ {rest : Text}, (∀ c ∈ rest.head?, kind c = .space) →
            ∀ d ∈ (r ++ rest).head?, d ≠ q := fun hre =>
          forall_head_append hr fun d hd heq => by
            cases (hre d hd).symm.trans (heq ▸ hq)
        have hvA : ∀ c ∈ (v ++ A).head?, kind c = .space := forall_head_append
          (fun c hc => by simpa [isSpace_eq] using hvs c (List.mem_of_mem_head? hc)) hA
        have hleft := (hrun hbo hws).tokens_eq hq (hne hvA)
        have hright := (hrun hbody' hinds).tokens_eq hq (hne hB)
        have hbn : newline ∉ b := fun hmem => hfew.2.1 (htake ▸ List.mem_append_left _ hmem)
        have hinj := append_newline_inj (x := w ++ b) (y := ind ++ b)
          (by simp [hfew.1, hbn]) (by simp [hindn, hbn]) body body'
        rw [hopened, hold, ← htake]
        simp only [List.cons_append, List.append_assoc] at hleft hright hinj ⊢
        rw [hleft, hright, List.cons.injEq, List.cons.injEq, hinj, outside_iff hvs hA hB ih' r,
          List.append_left_inj]
        simp [and_assoc]
      · -- the line lies within the run
        have hwhole : t.take (pastClosingQuote q t) = t := by
          conv_rhs => rw [← List.take_append_drop (pastClosingQuote q t) t, hnone]
          simp
        rw [hwhole] at hb
        have hopened : opened (some q) line = some q := by
          rw [hold, opened_append, opened_spaces hws _ (by simpa using hq), opened_append,
            hb.opened_eq hq, if_neg Bool.false_ne_true, opened_spaces hvs _ (by simpa using hq)]
        have hleft : Pending (some q) (q :: (body ++ newline :: (w ++ (t ++ v)))) :=
          ⟨_, rfl, hq, hbo.append (.other hnq ((quoted_spaces hq hws).append
            (hb.append (quoted_spaces hq hvs))))⟩
        have hright : Pending (some q) (q :: (body' ++ newline :: (ind ++ t))) :=
          ⟨_, rfl, hq, hbody'.append (.other hnq ((quoted_spaces hq hinds).append hb))⟩
        have hiff := ih' hleft hright
        have hinj := append_newline_inj (x := w ++ (t ++ v)) (y := ind ++ t)
          (by simp [hfew]) (by simp [hindn, hfew.2.1]) body body'
        rw [hnew] at hsame
        rw [← hold, hsame] at hinj
        rw [← hold] at hiff
        rw [hopened]
        simp only [List.cons_append, List.append_assoc] at hiff ⊢
        rw [hiff, List.cons.injEq, hinj]
        simp [and_assoc]

lemma newline_notMem_splitOn (s : Text) : ∀ line ∈ s.splitOn newline, newline ∉ line := by
  rw [List.splitOn_eq_splitOnP]
  induction s with
  | nil => simp
  | cons c s ih =>
    rw [List.splitOnP_cons_eq_if_modifyHead]
    split_ifs with hc
    · exact List.forall_mem_cons.mpr ⟨by simp, ih⟩
    · cases hlines : s.splitOnP (· == newline) with
      | nil => simp
      | cons line lines =>
        rw [hlines] at ih
        obtain ⟨hline, hre⟩ := List.forall_mem_cons.mp ih
        have hne : newline ≠ c := fun heq => hc (by simp [heq])
        exact List.forall_mem_cons.mpr ⟨by simp [hne, hline], hre⟩

/-- The structure of a text says which tokens it splits into and nothing else, and
re-indenting keeps it exactly where no white space within a run would be changed. -/
theorem structure_is_tokens (s s' : Text) :
    Structure (Structure s) = Structure s ∧
      (Structure s = Structure s' ↔ ∃ ts, Splits True s ts ∧ Splits True s' ts) ∧
      (Structure (reindent s) = Structure s ↔ Kept 0 none (s.splitOn newline)) := by
  have hinj : ∀ s s', Structure s = Structure s' ↔ tokens 0 [] s = tokens 0 [] s' := by
    intro s s'
    rw [structure_eq, structure_eq]
    refine ⟨fun heq => ?_, fun heq => by rw [heq]⟩
    rw [← (splits_self s).tokens_join, heq, (splits_self s').tokens_join]
  refine ⟨?_, ⟨fun heq => ?_, ?_⟩, ?_⟩
  · rw [structure_eq, structure_eq, (splits_self s).tokens_join]
  · exact ⟨_, splits_self s, (hinj s s').mp heq ▸ splits_self s'⟩
  · rintro ⟨ts, hs, hs'⟩
    rw [structure_eq, structure_eq, hs.tokens_eq, hs'.tokens_eq]
  -- both texts are lines with line feeds between them
  · have hnothing : Pending none [] := rfl
    have hiff := lines_iff (newline_notMem_splitOn s) 0 hnothing hnothing
    have hold := (splits_self ((s.splitOn newline).flatMap (newline :: ·))).tokens_intercalate rfl
    have hnew := (splits_self (((s.splitOn newline).mapIdx reindentLine).flatMap
      (newline :: ·))).tokens_intercalate rfl
    rw [List.intercalate_splitOn] at hold
    rw [hinj, reindent, hnew, hold, eq_comm]
    simpa using hiff


/-- A run over two lines that is written as `reindent` writes it. -/
theorem structure_is_tokens_column :
    let s := text "(\n  'a\n\tb' )"
    Kept 0 none (s.splitOn newline) ∧ Structure (reindent s) = Structure s := by
  have heq : Structure (reindent (text "(\n  'a\n\tb' )")) = Structure (text "(\n  'a\n\tb' )") := by
    decide +kernel
  exact ⟨(structure_is_tokens _ []).2.2.mp heq, heq⟩

/-- Two statements whose default values differ inside the quotes: `reindent` makes one of
them into the other, and so changes what it says. -/
theorem reindent_confuses_defaults :
    let s := text "CREATE TABLE t (c DEFAULT 'a\nb')"
    let s' := text "CREATE TABLE t (c DEFAULT 'a\n  b')"
    Structure s ≠ Structure s' ∧ reindent s = reindent s' ∧
      Structure (reindent s) ≠ Structure s := by
  decide +kernel

end RemoteFs.Sqliteschema
