import Mathlib.Data.List.DropRight
import Disc.Lib.Text

/-!
# Lines of the configuration

`cfg_parse_line` of `cfg_parser.c`, with the scanners of `parser_f.h`. A line is an id, a `=`
that may be missing, and up to a hundred tokens; a `#` outside quotes begins a comment.

A token is cut off with a zero byte in place of the one that follows it, and the scan goes
on behind that byte whatever it was. So a comment that follows its token without a blank is
read as more tokens. Behind the hundredth token one byte more is passed over before the rest
of the line is looked at. The id is cut off last, so that of a line which has nothing behind
it runs on to the end of the line.
-/

namespace Disc.Config

open Disc.Lib

/-! ## The code -/

/-- A space or a tab. -/
def isBlank (c : UInt8) : Bool := c = 32 || c = 9

/-- What ends a line: a `#`, a line feed or a carriage return. -/
def isStop (c : UInt8) : Bool := c = 35 || c = 10 || c = 13

/-- `eat_space_end`: what is left. -/
def eatSpaceEnd (p : List UInt8) : List UInt8 := p.dropWhile isBlank

/--
The loop of the token scanners: up to the first byte that stops them outside quotes, with
`odd` telling whether the number of quotes is. The token, and what is left.
-/
def eatUntil (stop : UInt8 → Bool) : Bool → List UInt8 → List UInt8 × List UInt8
  | _, [] => ([], [])
  | odd, c :: p =>
      if odd || ! stop c then
        let (t, rest) := eatUntil stop (if c = 34 then ! odd else odd) p
        (c :: t, rest)
      else ([], c :: p)

/-- `eat_token_end`. -/
def eatTokenEnd (p : List UInt8) : List UInt8 × List UInt8 :=
  eatUntil (fun c => isBlank c || isStop c) false p

/-- `eat_token2_end`. -/
def eatToken2End (p : List UInt8) (delim : UInt8) : List UInt8 × List UInt8 :=
  eatUntil (fun c => c = delim || (isBlank c || isStop c)) false p

/-- `is_empty_end`. -/
def isEmptyEnd (p : List UInt8) : Bool := (eatSpaceEnd p).head?.any fun c => c = 13 || c = 10

/-- `end_test`. -/
def endTest (x : List UInt8) : Bool := x.head?.all isStop

/-- `CFG_TOKENS`. -/
def cfgTokens : Nat := 100

/-- `CFG_EMPTY` and so on. -/
inductive CfgType where
  | empty
  | comment
  | definition
  | error
deriving Repr, DecidableEq

/-- `struct cfg_line`: a pointer into the line is the string it points to, up to the next zero byte. -/
structure CfgLine where
  type : CfgType
  id : Option (List UInt8)
  hasEqual : Bool
  value : List (List UInt8)
deriving Repr, DecidableEq

/-- What a line starts with: all there is, or the id, the `=` and what is left. -/
inductive LineHead where
  | all (cl : CfgLine)
  | id (id : List UInt8) (hasEqual : Bool) (tmp : List UInt8)
deriving Repr, DecidableEq

/-- `cfg_parse_line` up to the loop. -/
def parseHead (line : List UInt8) : LineHead :=
  let tmp := eatSpaceEnd line
  if endTest tmp || isEmptyEnd tmp then .all ⟨.empty, none, false, []⟩
  else if tmp.head? = some 35 then .all ⟨.comment, none, false, []⟩
  else
    let (id, t) := eatToken2End tmp 61
    -- on these two ways out nothing was cut off, and the id is the rest of the line
    if endTest t then .all ⟨.error, some tmp, false, []⟩
    else
      let behind := eatSpaceEnd t
      if endTest behind then .all ⟨.error, some tmp, false, []⟩
      else if behind.head? = some 61 then .id id true behind.tail
      else .id id false behind

/-- The loop over the tokens: the tokens, and what is left if it was not left early. -/
def readTokens : Nat → List UInt8 → List (List UInt8) × Option (List UInt8)
  | 0, tmp => ([], some tmp)
  | r + 1, tmp =>
      let tmp := eatSpaceEnd tmp
      if endTest tmp then ([], none)
      else
        let (t, tmp) := eatTokenEnd tmp
        -- the byte behind the token is overwritten
        let (ts, rest) := readTokens r tmp.tail
        (t :: ts, rest)

/-- What is behind the last token that is read: nothing, or extra characters? -/
def extraTokens (tmp : List UInt8) : Bool :=
  1 < tmp.length && ! isEmptyEnd tmp.tail && ! endTest (eatSpaceEnd tmp.tail)

/-- `cfg_parse_line` from the loop on. -/
def finishLine (id : List UInt8) (hasEqual : Bool) (tmp : List UInt8) : CfgLine :=
  let (value, rest) := readTokens cfgTokens tmp
  ⟨if rest.any extraTokens then .error else .definition, some id, hasEqual, value⟩

/-- `cfg_parse_line`. -/
def cfgParseLine (line : List UInt8) : CfgLine :=
  match parseHead line with
  | .all cl => cl
  | .id id hasEqual tmp => finishLine id hasEqual tmp

/-! ## What a line says -/

/-- A line: no zero byte in it, and line ends at its end only. -/
structure TextLine where
  body : List UInt8
  eol : List UInt8
  body_clean : ∀ c ∈ body, c ≠ 0 ∧ c ≠ 10 ∧ c ≠ 13
  eol_kind : eol ∈ [[], [10], [13, 10], [13]]

def TextLine.bytes (l : TextLine) : List UInt8 := l.body ++ l.eol

/-- The line up to its first `#` outside quotes. -/
def cutComment (line : List UInt8) : List UInt8 := (eatUntil (· = 35) false line).1

/-- The line up to a comment or its end. -/
def lineText (line : List UInt8) : List UInt8 := (eatUntil isStop false line).1

/-- Cut a text at its blanks, except for those in quotes; `cur` is the token so far. -/
def splitBlanks (odd : Bool) (cur : List UInt8) : List UInt8 → List (List UInt8)
  | [] => if cur = [] then [] else [cur]
  | c :: l =>
      if ! odd && isBlank c then
        if cur = [] then splitBlanks odd [] l else cur :: splitBlanks odd [] l
      else splitBlanks (if c = 34 then ! odd else odd) (cur ++ [c]) l

/-- The rest of a text from the first blank or `=` on that is not in quotes. -/
def behindId (odd : Bool) : List UInt8 → List UInt8
  | [] => []
  | c :: l =>
      if ! odd && (isBlank c || c = 61) then c :: l else behindId (if c = 34 then ! odd else odd) l

/-- What a text has behind its id, past blanks: an `=`, the values, or nothing. -/
def afterId (text : List UInt8) : List UInt8 :=
  (behindId false (text.dropWhile isBlank)).dropWhile isBlank

/-- The values of a text, behind its id and the `=` that may follow. -/
def valueText (text : List UInt8) : List UInt8 :=
  if (afterId text).head? = some 61 then (afterId text).tail else afterId text

/-- The tokens of a line are those of its values. -/
def lineTokens (line : List UInt8) : List (List UInt8) := splitBlanks false [] (valueText (lineText line))

/-- The comment makes no difference, and the tokens of a definition are those of the line. -/
def CommentsRight (line : List UInt8) : Prop :=
  cfgParseLine line = cfgParseLine (cutComment line)
    ∧ ((cfgParseLine line).type = .definition → (cfgParseLine line).value = lineTokens line)

/-- What is left behind `k` tokens and the byte that follows each of them. -/
def behindTokens : Nat → List UInt8 → List UInt8
  | 0, tmp => tmp
  | k + 1, tmp => behindTokens k (eatTokenEnd (eatSpaceEnd tmp)).2.tail

/-- Past blanks, there is nothing more but a comment or the end of the line. -/
def AtEnd (tmp : List UInt8) : Prop := endTest (eatSpaceEnd tmp) = true

/--
A line with an id and nothing behind it has no comment. A line with less than a hundred tokens
ends one byte behind its last token, past blanks. A line with more ends one byte further behind
the hundredth, and only one that has no more.
-/
def ReadToItsEnd (line : List UInt8) : Prop :=
  let text := lineText line
  let values := valueText text ++ line.drop text.length
  let n := (lineTokens line).length
  if text.all isBlank then True
  else if afterId text = [] then cutComment line = line
  else (n < cfgTokens → AtEnd (behindTokens n values))
    ∧ (cfgTokens ≤ n → (AtEnd (behindTokens cfgTokens values).tail ↔ n = cfgTokens))

/-! ## Texts -/

/-- `a` is a text in which nothing ends the line, from a place with `odd` on, and `b` follows it. -/
def Clear : Bool → List UInt8 → List UInt8 → Prop
  | odd, [], b => b = [] ∨ odd = false ∧ endTest b = true
  | odd, c :: a, b => (odd = true ∨ isStop c = false) ∧ Clear (if c = 34 then ! odd else odd) a b

theorem clear_eatUntil (odd : Bool) (line : List UInt8) :
    ∃ b, eatUntil isStop odd line = ((eatUntil isStop odd line).1, b)
      ∧ line = (eatUntil isStop odd line).1 ++ b ∧ Clear odd (eatUntil isStop odd line).1 b := by
  induction line generalizing odd with
  | nil => exact ⟨[], rfl, rfl, .inl rfl⟩
  | cons c line ih =>
      obtain ⟨b, h, hline, hclear⟩ := ih (if c = 34 then ! odd else odd)
      rw [eatUntil]
      by_cases hc : (odd || ! isStop c) = true
      · rw [if_pos hc]
        refine ⟨b, by rw [h], congrArg _ hline, ?_, hclear⟩
        simpa using hc
      · rw [if_neg hc]
        simp only [Bool.or_eq_true, Bool.not_eq_true', not_or, Bool.not_eq_true, Bool.not_eq_false] at hc
        exact ⟨c :: line, rfl, rfl, .inr ⟨hc.1, by simpa [endTest] using hc.2⟩⟩

/-- A scanner that stops where the text does sees no more of it than the text. -/
theorem Clear.scan {stop : UInt8 → Bool} (hstop : ∀ c, isStop c = true → stop c = true) {odd : Bool}
    {a b : List UInt8} (h : Clear odd a b) :
    eatUntil stop odd (a ++ b) = ((eatUntil stop odd a).1, (eatUntil stop odd a).2 ++ b)
      ∧ Clear false (eatUntil stop odd a).2 b := by
  induction a generalizing odd with
  | nil =>
      obtain rfl | ⟨rfl, hb⟩ := h
      · exact ⟨rfl, .inl rfl⟩
      · refine ⟨?_, .inr ⟨rfl, hb⟩⟩
        cases b with
        | nil => rfl
        | cons c b =>
            have hc : stop c = true := hstop c (by simpa [endTest] using hb)
            rw [List.nil_append, eatUntil]
            simp [hc, eatUntil]
  | cons c a ih =>
      by_cases hc : (odd || ! stop c) = true
      · obtain ⟨heq, hclear⟩ := ih h.2
        rw [List.cons_append, eatUntil, eatUntil, if_pos hc, if_pos hc, heq]
        exact ⟨rfl, hclear⟩
      · rw [List.cons_append, eatUntil, eatUntil, if_neg hc, if_neg hc]
        have hodd : odd = false := by
          cases odd with
          | true => exact absurd rfl hc
          | false => rfl
        rw [hodd] at h
        exact ⟨rfl, h⟩

theorem Clear.token {a b : List UInt8} (h : Clear false a b) :
    eatTokenEnd (a ++ b) = ((eatTokenEnd a).1, (eatTokenEnd a).2 ++ b)
      ∧ Clear false (eatTokenEnd a).2 b :=
  h.scan (by intro c hc; simp [hc])

theorem Clear.token2 {a b : List UInt8} (h : Clear false a b) (delim : UInt8) :
    eatToken2End (a ++ b) delim = ((eatToken2End a delim).1, (eatToken2End a delim).2 ++ b)
      ∧ Clear false (eatToken2End a delim).2 b :=
  h.scan (by intro c hc; simp [hc])

theorem Clear.nil {odd : Bool} {a b : List UInt8} (h : Clear odd a b) : Clear odd a [] := by
  induction a generalizing odd with
  | nil => exact .inl rfl
  | cons c a ih => exact ⟨h.1, ih h.2⟩

theorem not_quote_of_blank {c : UInt8} (h : isBlank c = true) : c ≠ 34 := by
  rintro rfl
  exact absurd h (by decide)

theorem not_stop_of_blank {c : UInt8} (h : isBlank c = true) : isStop c = false := by
  rcases (by simpa [isBlank] using h : c = 32 ∨ c = 9) with rfl | rfl
  · rfl
  · rfl

/-- Blanks in front of a text, and of what follows it. -/
theorem Clear.blanks {a b : List UInt8} (h : Clear false a b) :
    Clear false (eatSpaceEnd a) b
      ∧ (eatSpaceEnd a ≠ [] → eatSpaceEnd (a ++ b) = eatSpaceEnd a ++ b)
      ∧ (eatSpaceEnd a = [] → eatSpaceEnd (a ++ b) = b) := by
  induction a with
  | nil =>
      refine ⟨h, fun hne => absurd rfl hne, fun _ => ?_⟩
      cases b with
      | nil => rfl
      | cons c b =>
          have hc : isStop c = true := by
            obtain hb | ⟨-, hb⟩ := h
            · exact absurd hb (by simp)
            · simpa [endTest] using hb
          have hnb : isBlank c = false := by
            by_contra hb
            rw [not_stop_of_blank (by simpa using hb)] at hc
            exact absurd hc (by simp)
          rw [List.nil_append, eatSpaceEnd, List.dropWhile_cons_of_neg (by simp [hnb])]
  | cons c a ih =>
      by_cases hc : isBlank c = true
      · have h2 := h.2
        rw [if_neg (not_quote_of_blank hc)] at h2
        have hskip : ∀ l, eatSpaceEnd (c :: l) = eatSpaceEnd l := fun l =>
          List.dropWhile_cons_of_pos hc
        rw [List.cons_append, hskip, hskip]
        exact ih h2
      · have hkeep : ∀ l, eatSpaceEnd (c :: l) = c :: l := fun l => List.dropWhile_cons_of_neg hc
        rw [List.cons_append, hkeep, hkeep]
        exact ⟨h, fun _ => rfl, fun h0 => absurd h0 (by simp)⟩

/-- A text is at its end when there is nothing of it left. -/
theorem Clear.endTest_iff {a b : List UInt8} (h : Clear false a b) : endTest (a ++ b) = true ↔ a = [] := by
  cases a with
  | nil =>
      refine iff_of_true ?_ rfl
      obtain rfl | ⟨-, hb⟩ := h
      · rfl
      · exact hb
  | cons c a =>
      refine iff_of_false ?_ (by simp)
      obtain hc | hc := h.1
      · exact absurd hc (by simp)
      · simp [endTest, hc]

theorem eatSpaceEnd_idem (p : List UInt8) : eatSpaceEnd (eatSpaceEnd p) = eatSpaceEnd p :=
  List.dropWhile_idempotent isBlank p

theorem eatSpaceEnd_head {p q : List UInt8} {c : UInt8} (h : eatSpaceEnd p = c :: q) :
    isBlank c = false := by
  by_contra hc
  have hidem := eatSpaceEnd_idem p
  rw [h, eatSpaceEnd, List.dropWhile_cons_of_pos (by simpa using hc)] at hidem
  have hlen := (List.dropWhile_sublist (p := isBlank) (l := q)).length_le
  rw [hidem, List.length_cons] at hlen
  omega

/-- A line that is empty up to its end is at its end. -/
theorem endTest_of_isEmptyEnd {p : List UInt8} (h : isEmptyEnd p = true) :
    endTest (eatSpaceEnd p) = true := by
  unfold isEmptyEnd at h
  cases hp : eatSpaceEnd p with
  | nil => rfl
  | cons c q =>
      rw [hp] at h
      rcases (by simpa using h : c = 13 ∨ c = 10) with rfl | rfl
      · rfl
      · rfl

/-- The branch for comments is never taken, nor is the second test for an empty line needed. -/
theorem parseHead_eq (line : List UInt8) :
    parseHead line =
      if endTest (eatSpaceEnd line) then .all ⟨.empty, none, false, []⟩
      else
        let id := (eatToken2End (eatSpaceEnd line) 61).1
        let t := (eatToken2End (eatSpaceEnd line) 61).2
        if endTest t then .all ⟨.error, some (eatSpaceEnd line), false, []⟩
        else if endTest (eatSpaceEnd t) then .all ⟨.error, some (eatSpaceEnd line), false, []⟩
        else if (eatSpaceEnd t).head? = some 61 then .id id true (eatSpaceEnd t).tail
        else .id id false (eatSpaceEnd t) := by
  unfold parseHead
  by_cases he : endTest (eatSpaceEnd line) = true
  · simp [he]
  · have hempty : isEmptyEnd (eatSpaceEnd line) = false := by
      by_contra h
      have hend := endTest_of_isEmptyEnd (by simpa using h)
      rw [eatSpaceEnd_idem] at hend
      exact he hend
    have hcomment : (eatSpaceEnd line).head? ≠ some 35 := by
      intro h
      exact he (by simp [endTest, h, isStop])
    simp only [he, hempty, hcomment, Bool.or_self, Bool.false_eq_true, if_false]

/-- The id of a text ends where the scanner says. -/
theorem Clear.behindId {odd : Bool} {a b : List UInt8} (h : Clear odd a b) :
    behindId odd a = (eatUntil (fun c => c = 61 || (isBlank c || isStop c)) odd a).2 := by
  induction a generalizing odd with
  | nil => rfl
  | cons c a ih =>
      rw [Config.behindId, eatUntil]
      -- nothing in a text stops the scanner but a blank or the `=`
      have hstop : (! odd && (isBlank c || c = 61)) = ! (odd || ! (c = 61 || (isBlank c || isStop c))) := by
        rcases h.1 with rfl | hc
        · rfl
        · cases odd with
          | true => rfl
          | false => simp [hc, Bool.or_comm]
      rw [hstop]
      cases hc : (odd || ! (decide (c = 61) || (isBlank c || isStop c))) with
      | true => simpa using ih h.2
      | false => simp

theorem Clear.afterId {a b : List UInt8} (h : Clear false a b) :
    afterId a = eatSpaceEnd (eatToken2End (eatSpaceEnd a) 61).2 := by
  rw [Config.afterId, eatSpaceEnd, eatSpaceEnd, eatToken2End]
  exact congrArg _ h.blanks.1.behindId

/-- **What a line starts with** is told from its text, and the text goes on behind it. -/
inductive HeadOf (a b : List UInt8) : Prop
  /-- There is nothing but blanks. -/
  | empty (h : eatSpaceEnd a = []) (ha : parseHead a = .all ⟨.empty, none, false, []⟩)
      (hab : parseHead (a ++ b) = .all ⟨.empty, none, false, []⟩)
  /-- There is nothing behind the id, which runs on to the end of the line. -/
  | bare (h : eatSpaceEnd a ≠ []) (hid : Config.afterId a = [])
      (ha : parseHead a = .all ⟨.error, some (eatSpaceEnd a), false, []⟩)
      (hab : parseHead (a ++ b) = .all ⟨.error, some (eatSpaceEnd a ++ b), false, []⟩)
  | id {id : List UInt8} {hasEqual : Bool} (h : eatSpaceEnd a ≠ []) (hid : Config.afterId a ≠ [])
      (ha : parseHead a = .id id hasEqual (valueText a))
      (hab : parseHead (a ++ b) = .id id hasEqual (valueText a ++ b))
      (hclear : Clear false (valueText a) b)

theorem Clear.head {a b : List UInt8} (h : Clear false a b) : HeadOf a b := by
  have hend : ∀ x, Clear false x b → (endTest x = true ↔ x = []) := by
    intro x hx
    have hiff := hx.nil.endTest_iff
    rwa [List.append_nil] at hiff
  have hendb : ∀ x, Clear false x b → x = [] → endTest b = true := by
    rintro x hx rfl
    exact hx.endTest_iff.mpr rfl
  have hafter := h.afterId
  obtain ⟨hs, hkeep, hall⟩ := h.blanks
  have heqa := parseHead_eq a
  have heqab := parseHead_eq (a ++ b)
  by_cases hnil : eatSpaceEnd a = []
  · rw [if_pos ((hend _ hs).mpr hnil)] at heqa
    rw [hall hnil, if_pos (hendb _ hs hnil)] at heqab
    exact .empty hnil heqa heqab
  · rw [if_neg (mt (hend _ hs).mp hnil)] at heqa
    rw [hkeep hnil, if_neg (mt hs.endTest_iff.mp hnil)] at heqab
    -- the id ends inside the text, if not with it
    obtain ⟨hscan, ht⟩ := hs.token2 61
    rw [hscan] at heqab
    generalize eatToken2End (eatSpaceEnd a) 61 = w at ht hafter heqa heqab
    obtain ⟨id, t⟩ := w
    simp only at ht hafter heqa heqab
    by_cases htnil : t = []
    · rw [if_pos ((hend _ ht).mpr htnil)] at heqa
      rw [if_pos (ht.endTest_iff.mpr htnil)] at heqab
      exact .bare hnil (by rw [hafter, htnil]; rfl) heqa heqab
    rw [if_neg (mt (hend _ ht).mp htnil)] at heqa
    rw [if_neg (mt ht.endTest_iff.mp htnil)] at heqab
    obtain ⟨hu, hkeep', hall'⟩ := ht.blanks
    rw [← hafter] at hu hkeep' hall' heqa
    by_cases hunil : Config.afterId a = []
    · rw [if_pos ((hend _ hu).mpr hunil)] at heqa
      rw [hall' hunil, if_pos (hendb _ hu hunil)] at heqab
      exact .bare hnil hunil heqa heqab
    rw [if_neg (mt (hend _ hu).mp hunil)] at heqa
    rw [hkeep' hunil, if_neg (mt hu.endTest_iff.mp hunil)] at heqab
    have hvalue : valueText a
        = if (Config.afterId a).head? = some 61 then (Config.afterId a).tail else Config.afterId a := rfl
    obtain ⟨c, u, hcu⟩ := List.exists_cons_of_ne_nil hunil
    rw [hcu] at hu hvalue heqa heqab
    rw [List.cons_append, List.head?_cons] at heqab
    rw [List.head?_cons] at heqa hvalue
    by_cases hc : some c = some 61
    · rw [if_pos hc] at heqa heqab hvalue
      obtain rfl := Option.some.inj hc
      exact .id hnil hunil (by rw [hvalue]; exact heqa) (by rw [hvalue]; exact heqab)
        (by rw [hvalue]; exact hu.2)
    · rw [if_neg hc] at heqa heqab hvalue
      exact .id hnil hunil (by rw [hvalue]; exact heqa) (by rw [hvalue]; exact heqab)
        (by rw [hvalue]; exact hu)

/-- The last test: one byte is passed over before it. -/
theorem extraTokens_eq (tmp : List UInt8) : extraTokens tmp = ! endTest (eatSpaceEnd tmp.tail) := by
  unfold extraTokens
  cases he : endTest (eatSpaceEnd tmp.tail) with
  | true => simp
  | false =>
      have hempty : isEmptyEnd tmp.tail = false := by
        by_contra h
        rw [endTest_of_isEmptyEnd (by simpa using h)] at he
        exact absurd he (by simp)
      have hlen : 1 < tmp.length := by
        cases tmp with
        | nil => exact absurd he (by decide)
        | cons c p => cases p with
          | nil => exact absurd he (by simp [eatSpaceEnd, endTest])
          | cons d p => simp
      simp [hempty, hlen]

/-! ## Tokens -/

theorem splitBlanks_blank {c : UInt8} {p : List UInt8} (hc : isBlank c = true) :
    splitBlanks false [] (c :: p) = splitBlanks false [] p := by
  rw [splitBlanks]
  simp [hc]

theorem splitBlanks_eatSpaceEnd (p : List UInt8) :
    splitBlanks false [] (eatSpaceEnd p) = splitBlanks false [] p := by
  induction p with
  | nil => rfl
  | cons c p ih =>
      by_cases hc : isBlank c = true
      · rw [eatSpaceEnd, List.dropWhile_cons_of_pos hc, splitBlanks_blank hc]
        exact ih
      · rw [eatSpaceEnd, List.dropWhile_cons_of_neg hc]

/-- In a text only a blank ends a token. -/
theorem Clear.split {odd : Bool} {a b cur : List UInt8} (h : Clear odd a b) :
    let w := eatUntil (fun c => isBlank c || isStop c) odd a
    splitBlanks odd cur a
        = (if cur ++ w.1 = [] then [] else [cur ++ w.1]) ++ splitBlanks false [] w.2
      ∧ (w.2 = [] ∨ ∃ c r, w.2 = c :: r ∧ isBlank c = true) := by
  induction a generalizing odd cur with
  | nil => simp [eatUntil, splitBlanks]
  | cons c a ih =>
      by_cases hc : (odd || ! (isBlank c || isStop c)) = true
      · have hnb : (! odd && isBlank c) = false := by
          cases odd with
          | true => rfl
          | false => simp_all
        obtain ⟨heq, hend⟩ := @ih _ (cur ++ [c]) h.2
        rw [eatUntil, if_pos hc, splitBlanks, hnb]
        refine ⟨?_, hend⟩
        simp only [Bool.false_eq_true, if_false, heq]
        simp
      · have hodd : odd = false := by
          cases odd with
          | true => exact absurd rfl hc
          | false => rfl
        subst hodd
        have hblank : isBlank c = true := by
          obtain hs | hs := h.1
          · exact absurd hs (by simp)
          · simpa [hs] using hc
        rw [eatUntil, if_neg hc]
        refine ⟨?_, .inr ⟨c, a, rfl, hblank⟩⟩
        rw [splitBlanks_blank hblank, splitBlanks, hblank]
        by_cases hcur : cur = []
        · simp [hcur]
        · simp [hcur]

/-- The first token of a text, and the text behind it. -/
theorem Clear.first {a b : List UInt8} (h : Clear false a b) (hnil : eatSpaceEnd a ≠ []) :
    ∃ t r, eatTokenEnd (eatSpaceEnd a) = (t, r) ∧ eatTokenEnd (eatSpaceEnd (a ++ b)) = (t, r ++ b)
      ∧ endTest (eatSpaceEnd a) = false ∧ endTest (eatSpaceEnd (a ++ b)) = false
      ∧ (r = [] ∨ ∃ c r', r = c :: r' ∧ isBlank c = true) ∧ Clear false r b
      ∧ splitBlanks false [] a = t :: splitBlanks false [] r := by
  obtain ⟨hs, hkeep, -⟩ := h.blanks
  obtain ⟨hscan, hr⟩ := hs.token
  obtain ⟨hsplit, hend⟩ := @Clear.split false (eatSpaceEnd a) b [] hs
  rw [splitBlanks_eatSpaceEnd] at hsplit
  have hfirst : (eatTokenEnd (eatSpaceEnd a)).1 ≠ [] := by
    obtain ⟨c, s, hcs⟩ := List.exists_cons_of_ne_nil hnil
    have hstop : isStop c = false := by
      rw [hcs] at hs
      exact hs.1.resolve_left (by simp)
    rw [hcs, eatTokenEnd, eatUntil]
    simp [hstop, eatSpaceEnd_head hcs]
  refine ⟨(eatTokenEnd (eatSpaceEnd a)).1, (eatTokenEnd (eatSpaceEnd a)).2, rfl, ?_, ?_, ?_, hend, hr,
    ?_⟩
  · rw [hkeep hnil, hscan]
  · have hiff := hs.nil.endTest_iff
    rw [List.append_nil] at hiff
    simpa using mt hiff.mp hnil
  · rw [hkeep hnil]
    simpa using mt hs.endTest_iff.mp hnil
  · rw [eatTokenEnd] at hfirst
    rw [hsplit, List.nil_append, if_neg hfirst]
    rfl

/-- From `x` on the scan takes these tokens, and is at `q` then. -/
inductive Takes : List UInt8 → List (List UInt8) → List UInt8 → Prop where
  | done {x : List UInt8} : Takes x [] x
  | token {x t r q : List UInt8} {ts : List (List UInt8)} :
      endTest (eatSpaceEnd x) = false → eatTokenEnd (eatSpaceEnd x) = (t, r) →
      Takes r.tail ts q → Takes x (t :: ts) q

theorem Takes.readTokens {x q : List UInt8} {ts : List (List UInt8)} (h : Takes x ts q) (m : Nat) :
    readTokens (ts.length + m) x = (ts ++ (readTokens m q).1, (readTokens m q).2) := by
  induction h with
  | done => simp
  | token hend htok hrest ih =>
      rw [List.length_cons, Nat.add_right_comm, Config.readTokens, hend, htok]
      simp only [Bool.false_eq_true, if_false, ih, List.cons_append]

theorem Takes.behindTokens {x q : List UInt8} {ts : List (List UInt8)} (h : Takes x ts q) :
    behindTokens ts.length x = q := by
  induction h with
  | done => rfl
  | token hend htok hrest ih => rw [List.length_cons, Config.behindTokens, htok, ih]

/--
**The first tokens of a text are taken**, and the scan is in the text still, or else behind
the byte that follows it.
-/
theorem Clear.takes {a b : List UInt8} (h : Clear false a b) {j : Nat}
    (hj : j ≤ (splitBlanks false [] a).length) :
    (∃ r, Takes (a ++ b) ((splitBlanks false [] a).take j) (r ++ b)
        ∧ Takes a ((splitBlanks false [] a).take j) r
        ∧ splitBlanks false [] r = (splitBlanks false [] a).drop j ∧ Clear false r b)
      ∨ j = (splitBlanks false [] a).length ∧ Takes (a ++ b) (splitBlanks false [] a) b.tail
        ∧ Takes a (splitBlanks false [] a) [] := by
  induction j generalizing a with
  | zero => exact .inl ⟨a, .done, .done, rfl, h⟩
  | succ j ih =>
      have hne : eatSpaceEnd a ≠ [] := by
        intro h0
        rw [← splitBlanks_eatSpaceEnd, h0] at hj
        exact absurd hj (by simp [splitBlanks])
      obtain ⟨t, r, htok, htok', hend, hend', hr, hclear, hsplit⟩ := h.first hne
      rw [hsplit] at hj ⊢
      obtain rfl | ⟨c, r, rfl, hc⟩ := hr
      · obtain rfl : j = 0 := by
          simp [splitBlanks] at hj
          omega
        exact .inr ⟨rfl, .token hend' htok' .done, .token hend htok .done⟩
      · have hclear' := hclear.2
        rw [if_neg (not_quote_of_blank hc)] at hclear'
        rw [splitBlanks_blank hc] at hj ⊢
        rcases ih hclear' (Nat.le_of_succ_le_succ hj) with ⟨q, ht, ht', hq, hcq⟩ | ⟨hlen, ht, ht'⟩
        · exact .inl ⟨q, .token hend' htok' ht, .token hend htok ht', hq, hcq⟩
        · exact .inr ⟨congrArg _ hlen, .token hend' htok' ht, .token hend htok ht'⟩

/-- At the end of a text no tokens are left. -/
theorem Clear.atEnd_iff {a b : List UInt8} (h : Clear false a b) :
    AtEnd (a ++ b) ↔ splitBlanks false [] a = [] := by
  obtain ⟨hs, hkeep, hall⟩ := h.blanks
  by_cases hnil : eatSpaceEnd a = []
  · refine iff_of_true ?_ ?_
    · have hb := hs.endTest_iff.mpr hnil
      rw [hnil] at hb
      rw [AtEnd, hall hnil]
      exact hb
    · rw [← splitBlanks_eatSpaceEnd, hnil]
      rfl
  · constructor
    · intro hend
      rw [AtEnd, hkeep hnil] at hend
      exact absurd (hs.endTest_iff.mp hend) hnil
    · intro h0
      obtain ⟨t, r, -, -, -, -, -, -, hsplit⟩ := h.first hnil
      exact absurd (hsplit.symm.trans h0) (by simp)

theorem AtEnd.readTokens {q : List UInt8} (h : AtEnd q) (m : Nat) : readTokens (m + 1) q = ([], none) := by
  rw [Config.readTokens]
  exact if_pos h

/-! ## Comments -/

/-- Inside the text no comment starts. -/
theorem Clear.no_comment {odd : Bool} {c : UInt8} {a b : List UInt8} (h : Clear odd (c :: a) b) :
    (odd || ! decide (c = 35)) = true := by
  obtain ho | hs := h.1
  · simp [ho]
  · have hne : c ≠ 35 := by
      rintro rfl
      exact absurd hs (by decide)
    simp [hne]

/-- Up to a comment the line is its text. -/
theorem Clear.cut_comment {odd : Bool} {a b : List UInt8} (h : Clear odd a b) (hb : b.head? = some 35) :
    (eatUntil (· = 35) odd (a ++ b)).1 = a := by
  induction a generalizing odd with
  | nil =>
      obtain rfl | ⟨rfl, -⟩ := h
      · exact absurd hb (by simp)
      · cases b with
        | nil => rfl
        | cons c b =>
            rw [List.head?_cons] at hb
            rw [Option.some.inj hb]
            rfl
  | cons c a ih =>
      rw [List.cons_append, eatUntil, if_pos h.no_comment]
      exact congrArg _ (ih h.2)

theorem eatUntil_none {stop : UInt8 → Bool} {p : List UInt8} (hp : ∀ c ∈ p, stop c = false)
    (odd : Bool) : eatUntil stop odd p = (p, []) := by
  induction p generalizing odd with
  | nil => rfl
  | cons c p ih =>
      obtain ⟨hc, hp'⟩ := List.forall_mem_cons.mp hp
      rw [eatUntil, if_pos (by simp [hc]), ih hp']

/-- A line without a comment is not cut. -/
theorem Clear.cut_none {odd : Bool} {a b : List UInt8} (h : Clear odd a b) (hb : 35 ∉ b) :
    (eatUntil (· = 35) odd (a ++ b)).1 = a ++ b := by
  induction a generalizing odd with
  | nil =>
      rw [List.nil_append, eatUntil_none]
      intro c hc
      exact decide_eq_false fun h35 => hb (h35 ▸ hc)
  | cons c a ih =>
      rw [List.cons_append, eatUntil, if_pos h.no_comment]
      exact congrArg _ (ih h.2)

theorem Clear.endTest_rest {odd : Bool} {a b : List UInt8} (h : Clear odd a b) : endTest b = true := by
  induction a generalizing odd with
  | nil =>
      obtain rfl | ⟨-, hb⟩ := h
      · rfl
      · exact hb
  | cons c a ih => exact ih h.2

/-- What follows the text of a line is a comment or the end of the line. -/
theorem TextLine.rest_kind {l : TextLine} {a b : List UInt8} (h : l.bytes = a ++ b) (hc : Clear false a b) :
    b.head? = some 35 ∨ ∀ c ∈ b, c = 10 ∨ c = 13 := by
  have heol : ∀ c ∈ l.eol, c = 10 ∨ c = 13 := by
    have hkind := l.eol_kind
    intro c hmem
    simp only [List.mem_cons, List.not_mem_nil, or_false] at hkind
    rcases hkind with h0 | h0 | h0 | h0
    · simp [h0] at hmem
    · simp [h0] at hmem
      exact .inl hmem
    · simp [h0] at hmem
      exact hmem.symm
    · simp [h0] at hmem
      exact .inr hmem
  rcases List.append_eq_append_iff.mp h with ⟨a', rfl, he⟩ | ⟨c', hbody, he⟩
  · exact .inr fun c hmem => heol c (he ▸ List.mem_append_right _ hmem)
  · cases c' with
    | nil => exact .inr fun c hmem => heol c (by rw [he] at hmem; exact hmem)
    | cons s c' =>
        have hend := hc.endTest_rest
        rw [he] at hend
        have hs : isStop s = true := hend
        have hclean := l.body_clean s (by rw [hbody]; simp)
        have h35 : s = 35 := by simpa [isStop, hclean] using hs
        exact .inl (by rw [he, h35]; rfl)

/-! ## The line -/

section Finish

variable {id x q : List UInt8} {hasEqual : Bool} {ts : List (List UInt8)}

theorem Takes.finish_lt (h : Takes x ts q) (hn : ts.length < cfgTokens) (hq : AtEnd q) :
    finishLine id hasEqual x = ⟨.definition, some id, hasEqual, ts⟩ := by
  obtain ⟨m, hm⟩ : ∃ m, cfgTokens = ts.length + (m + 1) := ⟨cfgTokens - ts.length - 1, by omega⟩
  rw [finishLine, hm, h.readTokens, hq.readTokens]
  simp

theorem Takes.finish_more (h : Takes x ts q) (hn : ts.length < cfgTokens) (hq : ¬ AtEnd q) :
    (finishLine id hasEqual x).value ≠ ts := by
  obtain ⟨m, hm⟩ : ∃ m, cfgTokens = ts.length + (m + 1) := ⟨cfgTokens - ts.length - 1, by omega⟩
  have hq' : ¬ endTest (eatSpaceEnd q) = true := hq
  rw [finishLine, hm, h.readTokens, Config.readTokens, if_neg hq']
  simp

theorem Takes.finish_full (h : Takes x ts q) (hn : ts.length = cfgTokens) :
    (AtEnd q.tail → finishLine id hasEqual x = ⟨.definition, some id, hasEqual, ts⟩)
      ∧ (¬ AtEnd q.tail → finishLine id hasEqual x = ⟨.error, some id, hasEqual, ts⟩) := by
  have hread := h.readTokens 0
  rw [Nat.add_zero, hn] at hread
  rw [finishLine, hread]
  simp only [Config.readTokens, List.append_nil, Option.any_some, extraTokens_eq, AtEnd]
  cases endTest (eatSpaceEnd q.tail) with
  | true | false => simp

end Finish

/-- What is decided at once is not a definition. -/
theorem parseHead_all {line : List UInt8} {cl : CfgLine} (h : parseHead line = .all cl) :
    cl.type ≠ .definition := by
  rw [parseHead_eq] at h
  split at h
  · obtain rfl := LineHead.all.inj h
    nofun
  · dsimp only at h
    split at h
    · obtain rfl := LineHead.all.inj h
      nofun
    · split at h
      · obtain rfl := LineHead.all.inj h
        nofun
      · split at h
        · exact absurd h (by nofun)
        · exact absurd h (by nofun)

/-- The end of a line is an end. -/
theorem atEnd_eol {b : List UInt8} (hb : ∀ c ∈ b, c = 10 ∨ c = 13) : AtEnd b := by
  cases b with
  | nil => rfl
  | cons c b =>
      rcases hb c List.mem_cons_self with rfl | rfl
      · rfl
      · rfl

theorem atEnd_comment {b : List UInt8} (hb : b.head? = some 35) : AtEnd b := by
  cases b with
  | nil => rfl
  | cons c b =>
      obtain rfl := Option.some.inj hb
      rfl

theorem atEnd_append {a b : List UInt8} (ha : AtEnd a) (hb : AtEnd b) : AtEnd (a ++ b) := by
  unfold AtEnd eatSpaceEnd at *
  rw [List.dropWhile_append]
  cases hd : a.dropWhile isBlank with
  | nil => exact hb
  | cons c r =>
      rw [hd] at ha
      exact ha

theorem splitBlanks_nil_iff {a b : List UInt8} (h : Clear false a b) :
    splitBlanks false [] a = [] ↔ eatSpaceEnd a = [] := by
  constructor
  · intro h0
    by_contra hnil
    obtain ⟨t, r, -, -, -, -, -, -, hsplit⟩ := h.first hnil
    exact absurd (hsplit.symm.trans h0) (by simp)
  · intro h0
    rw [← splitBlanks_eatSpaceEnd, h0]
    rfl

/-- When all tokens of a text are taken, it goes on with its end, also one byte further. -/
theorem Clear.atEnd_tail {a b : List UInt8} (h : Clear false a b) (hnil : splitBlanks false [] a = [])
    (hb : a = [] → AtEnd b.tail) : AtEnd (a ++ b).tail := by
  cases a with
  | nil => exact hb rfl
  | cons c a =>
      have hspace := (splitBlanks_nil_iff h).mp hnil
      have hc : isBlank c = true := by
        by_contra hc
        rw [eatSpaceEnd, List.dropWhile_cons_of_neg hc] at hspace
        exact absurd hspace (by simp)
      have hclear := h.2
      rw [if_neg (not_quote_of_blank hc)] at hclear
      rw [splitBlanks_blank hc] at hnil
      exact hclear.atEnd_iff.mpr hnil

/-! ### What follows the text -/

/-- What the line is compared with: its text, if a comment follows it, or the line itself. -/
def CutTo (id : List UInt8) (hasEqual : Bool) (x b : List UInt8) (cl : CfgLine) : Prop :=
  b.head? = some 35 ∧ cl = finishLine id hasEqual x
    ∨ (∀ c ∈ b, c = 10 ∨ c = 13) ∧ cl = finishLine id hasEqual (x ++ b)

section Cut

variable {id x b : List UInt8} {hasEqual : Bool} {cl : CfgLine}

/-- The tokens of a text are all taken, and only an end is left of the text. -/
theorem Clear.takes_all (h : Clear false x b) :
    ∃ q q', Takes (x ++ b) (splitBlanks false [] x) q ∧ Takes x (splitBlanks false [] x) q'
      ∧ (AtEnd q' ∧ AtEnd q'.tail)
      ∧ ((∀ c ∈ b, c = 10 ∨ c = 13) → AtEnd q ∧ AtEnd q.tail) := by
  have htail : (∀ c ∈ b, c = 10 ∨ c = 13) → ∀ c ∈ b.tail, c = 10 ∨ c = 13 :=
    fun hb c hc => hb c (List.mem_of_mem_tail hc)
  rcases h.takes (Nat.le_refl _) with ⟨r, ht, ht', hr, hclear⟩ | ⟨-, ht, ht'⟩
  · rw [List.take_length] at ht ht'
    rw [List.drop_length] at hr
    have hend := hclear.nil.atEnd_iff.mpr hr
    have hend' := hclear.nil.atEnd_tail hr fun _ => rfl
    rw [List.append_nil] at hend hend'
    refine ⟨_, _, ht, ht', ⟨hend, hend'⟩, fun hb => ⟨hclear.atEnd_iff.mpr hr, ?_⟩⟩
    exact hclear.atEnd_tail hr fun _ => atEnd_eol (htail hb)
  · refine ⟨_, _, ht, ht', ⟨rfl, rfl⟩, fun hb => ⟨atEnd_eol (htail hb), ?_⟩⟩
    exact atEnd_eol fun c hc => htail hb c (List.mem_of_mem_tail hc)

/-- A text that is a definition, and whether its line is the same one. -/
theorem CutTo.right_iff {ts : List (List UInt8)} {ends : Prop} (hcut : CutTo id hasEqual x b cl)
    (htext : finishLine id hasEqual x = ⟨.definition, some id, hasEqual, ts⟩)
    (hyes : ends → finishLine id hasEqual (x ++ b) = ⟨.definition, some id, hasEqual, ts⟩)
    (hno : ¬ ends → finishLine id hasEqual (x ++ b) ≠ ⟨.definition, some id, hasEqual, ts⟩)
    (heol : (∀ c ∈ b, c = 10 ∨ c = 13) → ends) :
    (finishLine id hasEqual (x ++ b) = cl
        ∧ ((finishLine id hasEqual (x ++ b)).type = .definition →
          (finishLine id hasEqual (x ++ b)).value = ts)) ↔ ends := by
  by_cases hends : ends
  · refine iff_of_true ⟨?_, fun _ => by rw [hyes hends]⟩ hends
    rcases hcut with ⟨-, rfl⟩ | ⟨-, rfl⟩
    · rw [hyes hends, htext]
    · rfl
  · refine iff_of_false ?_ hends
    rintro ⟨heq, -⟩
    rcases hcut with ⟨-, rfl⟩ | ⟨hb, -⟩
    · exact hno hends (heq.trans htext)
    · exact hends (heol hb)

/-- A line with less than a hundred tokens. -/
theorem CutTo.right_lt (hcut : CutTo id hasEqual x b cl) (h : Clear false x b)
    (hn : (splitBlanks false [] x).length < cfgTokens) :
    (finishLine id hasEqual (x ++ b) = cl
        ∧ ((finishLine id hasEqual (x ++ b)).type = .definition →
          (finishLine id hasEqual (x ++ b)).value = splitBlanks false [] x))
      ↔ AtEnd (behindTokens (splitBlanks false [] x).length (x ++ b)) := by
  obtain ⟨q, q', ht, ht', hq', heol⟩ := h.takes_all
  rw [ht.behindTokens]
  refine hcut.right_iff (ht'.finish_lt hn hq'.1) (ht.finish_lt hn) (fun hq heq => ?_)
    fun hb => (heol hb).1
  -- the line has more tokens than its text
  exact ht.finish_more hn hq (by rw [heq])

/-- A line with a hundred tokens. -/
theorem CutTo.right_full (hcut : CutTo id hasEqual x b cl) (h : Clear false x b)
    (hn : (splitBlanks false [] x).length = cfgTokens) :
    (finishLine id hasEqual (x ++ b) = cl
        ∧ ((finishLine id hasEqual (x ++ b)).type = .definition →
          (finishLine id hasEqual (x ++ b)).value = splitBlanks false [] x))
      ↔ AtEnd (behindTokens cfgTokens (x ++ b)).tail := by
  obtain ⟨q, q', ht, ht', hq', heol⟩ := h.takes_all
  rw [← hn, ht.behindTokens]
  refine hcut.right_iff ((ht'.finish_full hn).1 hq'.2) (ht.finish_full hn).1 (fun hq heq => ?_)
    fun hb => (heol hb).2
  have herr : finishLine id hasEqual (x ++ b) = _ := (ht.finish_full hn).2 hq
  exact absurd (congrArg CfgLine.type (herr.symm.trans heq)) (by simp)

/-- A line with more tokens. -/
theorem CutTo.right_more (hcut : CutTo id hasEqual x b cl) (h : Clear false x b)
    (hn : cfgTokens < (splitBlanks false [] x).length) :
    (finishLine id hasEqual (x ++ b) = cl
        ∧ ((finishLine id hasEqual (x ++ b)).type = .definition →
          (finishLine id hasEqual (x ++ b)).value = splitBlanks false [] x))
      ↔ ¬ AtEnd (behindTokens cfgTokens (x ++ b)).tail := by
  obtain ⟨r, ht, ht', hr, hclear⟩ := (h.takes (Nat.le_of_lt hn)).resolve_right fun h' =>
    absurd h'.1 (by omega)
  have hlen : ((splitBlanks false [] x).take cfgTokens).length = cfgTokens :=
    List.length_take_of_le (Nat.le_of_lt hn)
  have hbehind := ht.behindTokens
  rw [hlen] at hbehind
  rw [hbehind]
  by_cases hq : AtEnd (r ++ b).tail
  · -- the tokens beyond the hundredth are lost
    have hL : finishLine id hasEqual (x ++ b) = _ := (ht.finish_full hlen).1 hq
    refine iff_of_false ?_ (not_not_intro hq)
    rintro ⟨-, hvalue⟩
    have htoks := hvalue (by rw [hL])
    rw [hL] at htoks
    rw [show (splitBlanks false [] x).take cfgTokens = splitBlanks false [] x from htoks] at hlen
    omega
  · have hL : finishLine id hasEqual (x ++ b) = _ := (ht.finish_full hlen).2 hq
    refine iff_of_true ⟨?_, fun hdef => absurd (hL ▸ hdef) (by nofun)⟩ hq
    rcases hcut with ⟨h35, rfl⟩ | ⟨-, rfl⟩
    · have hend : ¬ AtEnd r.tail := by
        intro hr'
        cases r with
        | nil =>
            have hdrop := congrArg List.length hr
            simp only [splitBlanks, if_true, List.length_nil, List.length_drop] at hdrop
            omega
        | cons c r => exact hq (atEnd_append hr' (atEnd_comment h35))
      rw [hL, (ht'.finish_full hlen).2 hend]
    · rfl

end Cut

/-- **Comments make no difference exactly when the line is read to its end.** -/
theorem commentsRight_iff (l : TextLine) : CommentsRight l.bytes ↔ ReadToItsEnd l.bytes := by
  obtain ⟨b, hscan, hline, hclear⟩ := clear_eatUntil false l.bytes
  have hkind := l.rest_kind hline hclear
  have htext : lineText l.bytes = (eatUntil isStop false l.bytes).1 := rfl
  generalize (eatUntil isStop false l.bytes).1 = a at hline hclear hkind htext
  have hcut : b.head? = some 35 ∧ cutComment l.bytes = a
      ∨ (∀ c ∈ b, c = 10 ∨ c = 13) ∧ cutComment l.bytes = l.bytes := by
    rcases hkind with h35 | heol
    · refine .inl ⟨h35, ?_⟩
      rw [cutComment, hline]
      exact hclear.cut_comment h35
    · refine .inr ⟨heol, ?_⟩
      rw [cutComment, hline]
      refine hclear.cut_none fun h35 => ?_
      rcases heol 35 h35 with h | h
      · exact absurd h (by decide)
      · exact absurd h (by decide)
  have hdrop : l.bytes.drop a.length = b := by rw [hline, List.drop_left]
  have hblank : (lineText l.bytes).all isBlank = true ↔ eatSpaceEnd a = [] := by
    rw [htext, eatSpaceEnd, List.dropWhile_eq_nil_iff, List.all_eq_true]
  cases hclear.head with
  | empty hnil ha hab =>
      rw [← hline] at hab
      have hL : cfgParseLine l.bytes = ⟨.empty, none, false, []⟩ := by rw [cfgParseLine, hab]
      rw [ReadToItsEnd, if_pos (hblank.mpr hnil)]
      refine iff_of_true ⟨?_, fun hdef => absurd (hL ▸ hdef) (parseHead_all hab)⟩ trivial
      rcases hcut with ⟨-, hc⟩ | ⟨-, hc⟩
      · rw [hL, hc, cfgParseLine, ha]
      · rw [hc]
  | bare hnil hid ha hab =>
      rw [← hline] at hab
      have hL : cfgParseLine l.bytes = ⟨.error, some (eatSpaceEnd a ++ b), false, []⟩ := by
        rw [cfgParseLine, hab]
      rw [ReadToItsEnd, if_neg (mt hblank.mp hnil), htext, if_pos hid]
      constructor
      -- the id of the line has the comment in it, that of the cut line has not
      · rintro ⟨heq, -⟩
        rcases hcut with ⟨h35, hc⟩ | ⟨-, hc⟩
        · rw [hL, hc, cfgParseLine, ha] at heq
          have hids : some (eatSpaceEnd a ++ b) = some (eatSpaceEnd a) := congrArg CfgLine.id heq
          have hb : b = [] := List.append_right_eq_self.mp (Option.some.inj hids)
          rw [hb] at h35
          exact absurd h35 (by simp)
        · exact hc
      · intro hc
        exact ⟨by rw [hc], fun hdef => absurd (hL ▸ hdef) (parseHead_all hab)⟩
  | @id id hasEqual hnil hid ha hab hx =>
      rw [← hline] at hab
      have hvalue : lineTokens l.bytes = splitBlanks false [] (valueText a) := by rw [lineTokens, htext]
      have hread : ReadToItsEnd l.bytes
          ↔ ((splitBlanks false [] (valueText a)).length < cfgTokens →
              AtEnd (behindTokens (splitBlanks false [] (valueText a)).length (valueText a ++ b)))
            ∧ (cfgTokens ≤ (splitBlanks false [] (valueText a)).length →
              (AtEnd (behindTokens cfgTokens (valueText a ++ b)).tail
                ↔ (splitBlanks false [] (valueText a)).length = cfgTokens)) := by
        rw [ReadToItsEnd, if_neg (mt hblank.mp hnil), hvalue, htext, if_neg hid, hdrop]
      generalize valueText a = x at ha hab hx hvalue hread
      have hL : cfgParseLine l.bytes = finishLine id hasEqual (x ++ b) := by rw [cfgParseLine, hab]
      have hto : CutTo id hasEqual x b (cfgParseLine (cutComment l.bytes)) := by
        rcases hcut with ⟨hb, hc⟩ | ⟨hb, hc⟩
        · exact .inl ⟨hb, by rw [hc, cfgParseLine, ha]⟩
        · exact .inr ⟨hb, by rw [hc, hL]⟩
      rw [CommentsRight, hvalue, hL, hread]
      rcases Nat.lt_trichotomy (splitBlanks false [] x).length cfgTokens with hn | hn | hn
      · rw [hto.right_lt hx hn]
        exact ⟨fun h => ⟨fun _ => h, fun hle => absurd hn (by omega)⟩, fun h => h.1 hn⟩
      · rw [hto.right_full hx hn]
        exact ⟨fun h => ⟨fun hlt => absurd hn (by omega), fun _ => iff_of_true h hn⟩,
          fun h => (h.2 (Nat.le_of_eq hn.symm)).mpr hn⟩
      · rw [hto.right_more hx hn]
        have hne : ¬ (splitBlanks false [] x).length = cfgTokens := by omega
        exact ⟨fun h => ⟨fun hlt => absurd hn (by omega), fun _ => iff_of_false h hne⟩,
          fun h hq => hne ((h.2 (Nat.le_of_lt hn)).mp hq)⟩

/-- The id of a line with nothing behind it has the comment in it. -/
example : (cfgParseLine (ascii "a #x")).id = some (ascii "a #x") := by decide

/-- A comment right behind a token is read as tokens. -/
theorem comment_read : ¬ CommentsRight (ascii "a=b#c d") := by
  rintro ⟨h, -⟩
  exact absurd h (by decide)

end Disc.Config
