import HeaderAtlas.Proofs.Documentation

/-!
# What a block comment starts with

A comment is taken for documentation if its text starts with an asterisk. The text is put
together from the lines of the comment, and empty ones at its beginning leave nothing behind,
no line feed either. So a comment whose opening is the last thing on its line starts with
whatever is written first on a later line: the asterisk that is commonly put there makes it
documentation (`opensDoc_of_plainComment`).

Where something stands after the opening, it decides: the comment is documentation if and only
if it is opened by `/**` and the last asterisk is not that of its end (`opensDoc_of_block`).
-/

namespace HeaderAtlas

open Text

/-- A text that starts with an asterisk, which is not that of the end of a comment. -/
def opensStarred (cs : List Char) : Bool := startsWith ['*'] cs && !startsWith ['*', '/'] cs

/-- What is written first in a comment that goes on with `segment` after its opening, and on the
lines after that. -/
def Pages.firstWritten (segment : List Char) (p : Pages) : List Char :=
  if segment.isEmpty then
    match h : p.logical with
    | (none, _) => []
    | (some line, q) =>
      have := cost_logical_some h
      firstWritten line q
  else segment
termination_by p.cost

namespace Pages

variable {p q : Pages} {segment line : List Char}

theorem firstWritten_of_ne (h : segment ≠ []) : p.firstWritten segment = segment := by
  rw [firstWritten, if_neg (by simpa using h)]

theorem firstWritten_of_line (hp : p.logical = (some line, q)) :
    p.firstWritten [] = q.firstWritten line := by
  rw [firstWritten]
  dsimp only [List.isEmpty_nil]
  rw [if_pos rfl]
  split <;> simp_all

end Pages

theorem Text.startsWith_singleton (c : Char) (cs : List Char) :
    startsWith [c] cs = (cs.head? == some c) := by
  cases cs with
  | nil => rfl
  | cons d cs =>
    by_cases hd : c = d
    · simp [startsWith, dropStem?, hd]
    · simp [startsWith, dropStem?, hd, Ne.symm hd]

/-- The inside of a comment is cut off at the first end of a comment, so it is empty only if the
text starts with that. -/
theorem Text.startsWith_of_cut? {needle cs inside after : List Char} (hneedle : needle ≠ [])
    (h : cut? needle cs = some (inside, after)) : startsWith needle cs = inside.isEmpty := by
  cases cs with
  | nil =>
    rw [cut?, if_neg (by simpa using hneedle)] at h
    cases h
  | cons c cs =>
    rw [cut?] at h
    split at h
    · next rest hrest =>
      cases h
      rw [startsWith, hrest]
      rfl
    · next hnone =>
      obtain ⟨⟨before, rest⟩, -, heq⟩ := Option.map_eq_some_iff.mp h
      cases heq
      rw [startsWith, hnone]
      rfl

namespace Lexer

variable {lx lx' : Lexer} {p : Pages} {text segment line : List Char} {t : Token}

/-- What has been found of a comment stays at its beginning. -/
theorem prefix_readComment (h : readComment text segment p = (some t, lx')) :
    text <+: t.text.toList := by
  have hkept : ∀ text : List Char, text <+: if text.isEmpty then [] else text ++ ['\n'] := by
    intro text
    cases text with
    | nil => exact List.prefix_rfl
    | cons c cs => exact List.prefix_append (c :: cs) ['\n']
  fun_induction readComment text segment p with
  | case1 text segment p text' inside after hcut =>
    cases h
    rw [Token.ofChars, String.toList_ofList]
    exact (hkept text).trans (List.prefix_append _ inside)
  | case2 text segment p hcut q hq => cases h
  | case3 text segment p text' hcut line q hq _ ih =>
    exact ((hkept text).trans (List.prefix_append _ segment)).trans (ih h)

/-- A comment starts with what is written first in it. -/
theorem startsWith_readComment (htext : text = [])
    (h : readComment text segment p = (some t, lx')) :
    startsWith ['*'] t.text.toList = opensStarred (p.firstWritten segment) := by
  fun_induction readComment text segment p with
  | case1 text segment p text' inside after hcut =>
    subst htext
    cases h
    have hstart : startsWith ['*', '/'] segment = inside.isEmpty :=
      startsWith_of_cut? (List.cons_ne_nil _ _) hcut
    have hsegment : segment = inside ++ '*' :: '/' :: after := by simpa using eq_of_cut? hcut
    have hne : segment ≠ [] := by simp [hsegment]
    rw [Pages.firstWritten_of_ne hne, opensStarred, hstart, Token.ofChars, String.toList_ofList,
      startsWith_singleton, startsWith_singleton, hsegment]
    cases inside with
    | nil => rfl
    | cons c cs => simp [text']
  | case2 text segment p hcut q hq => cases h
  | case3 text segment p text' hcut line q hq _ ih =>
    subst htext
    cases segment with
    | nil =>
      -- Nothing is kept of an empty beginning.
      rw [Pages.firstWritten_of_line hq]
      exact ih rfl h
    | cons c cs =>
      have hstart : startsWith ['*', '/'] (c :: cs) = false := by
        rw [startsWith, Option.isSome_eq_false_iff, Option.isNone_iff_eq_none]
        rw [cut?] at hcut
        split at hcut
        · cases hcut
        · assumption
      obtain ⟨more, hmore⟩ := prefix_readComment h
      rw [Pages.firstWritten_of_ne (List.cons_ne_nil c cs), opensStarred, hstart, ← hmore,
        startsWith_singleton, startsWith_singleton]
      simp [text']

end Lexer

/-! ## Comments that are no documentation -/

section NotDoc

variable {text : String}

theorem DocBlock.afterHeader_of_not_isDoc (h : isDoc text = false) (name : String) :
    afterHeader (some text) name = .error .unmarked := by
  rw [isDoc, startsWith_singleton, beq_eq_false_iff_ne] at h
  rw [afterHeader, Option.map_some]
  exact if_pos (bne_iff_ne.mpr h)

theorem DocBlock.readTypedef_of_not_isDoc (h : isDoc text = false) (name : String) :
    readTypedef (some text) name = none := by
  rw [isDoc, startsWith_singleton, beq_eq_false_iff_ne] at h
  exact if_pos (bne_iff_ne.mpr h)

/-- A comment that is no documentation does not make documentation of what is pending. -/
theorem Scanner.isDoc_absorb {σ : Type} [Feed σ] (h : isDoc text = false) (env : ScanEnv)
    (s : Scanner σ) : (s.absorb env text).comment.any isDoc = s.comment.any isDoc := by
  have hstart : startsWith ['*'] text.toList = false := h
  rw [absorb]
  cases s.comment with
  | none => exact h
  | some pending =>
    dsimp only
    rw [hstart, if_neg Bool.false_ne_true, Option.any_some, Option.any_some, isDoc,
      String.toList_append, startsWith_singleton, isDoc, startsWith_singleton]
    rw [startsWith_singleton] at hstart
    cases pending.toList with
    | nil => rw [List.nil_append]; exact hstart
    | cons c cs => rfl

end NotDoc

namespace Lexer

/-- **Which block comments are documentation.** A comment starts with an asterisk if one follows
its opening that is not that of its end; otherwise only if its opening is the last thing on the
line and what is written first on the lines after it starts with one. Any other comment is no
documentation, and makes none of what it is added to. -/
theorem opensDoc_of_block {lx lx' : Lexer} {p : Pages} {segment : List Char} {t : Token}
    (hpending : lx.pending = []) (hline : lx.takeLine = (some ('/' :: '*' :: segment), p))
    (ht : lx.next = (some t, lx')) :
    (isDoc t.text = true ↔ opensStarred segment = true
        ∨ segment = [] ∧ opensStarred (p.firstWritten []) = true)
      ∧ (opensStarred segment = false →
        (segment = [] → opensStarred (p.firstWritten []) = false) →
        (∀ name, DocBlock.afterHeader (some t.text) name = .error .unmarked
          ∧ DocBlock.readTypedef (some t.text) name = none)
        ∧ ∀ (env : ScanEnv) (s : Scanner Lexer),
          (s.absorb env t.text).comment.any isDoc = s.comment.any isDoc) := by
  have hread : readComment [] segment p = (some t, lx') :=
    (next_of_block hpending hline rfl).symm.trans ht
  have hstart : isDoc t.text = opensStarred (p.firstWritten segment) :=
    startsWith_readComment rfl hread
  have hiff : isDoc t.text = true ↔ opensStarred segment = true
      ∨ segment = [] ∧ opensStarred (p.firstWritten []) = true := by
    rw [hstart]
    by_cases hne : segment = []
    · subst hne
      simp [opensStarred, startsWith, dropStem?]
    · rw [Pages.firstWritten_of_ne hne]
      simp [hne]
  refine ⟨hiff, fun hplain hwritten => ?_⟩
  have hdoc : isDoc t.text = false := by
    rw [← Bool.not_eq_true, hiff, hplain]
    rintro (h | ⟨hnil, h⟩)
    · cases h
    · rw [hwritten hnil] at h
      cases h
  exact ⟨fun name => ⟨DocBlock.afterHeader_of_not_isDoc hdoc name,
    DocBlock.readTypedef_of_not_isDoc hdoc name⟩, Scanner.isDoc_absorb hdoc⟩

/-- A comment with something after its opening, that has the layout of documentation below. -/
def remark : String := "/* see below\n * f:\n *\n * Does it.\n */\nint f(int x);\n"

theorem opensDoc_of_remark :
    (ofText remark).takeLine.1 = some "/* see below".toList
      ∧ (ofText remark).next.1 = some ⟨.comment, " see below\n* f:\n*\n* Does it.\n"⟩
      ∧ isDoc " see below\n* f:\n*\n* Does it.\n" = false
      ∧ DocBlock.afterHeader (some " see below\n* f:\n*\n* Does it.\n") "f" = .error .unmarked := by
  have hline : (ofText remark).takeLine.1 = some ('/' :: '*' :: " see below".toList) := by
    decide +kernel
  have htoken : (ofText remark).next.1
      = some ⟨.comment, " see below\n* f:\n*\n* Does it.\n"⟩ := by
    decide +kernel
  obtain ⟨hiff, hplain⟩ := @opensDoc_of_block (ofText remark) _ _ _ _ rfl (Prod.ext hline rfl)
    (Prod.ext htoken rfl)
  refine ⟨hline, htoken, ?_, ?_⟩
  · rw [← Bool.not_eq_true, hiff]
    decide +kernel
  · exact ((hplain (by decide +kernel) (fun h => absurd h (by decide +kernel))).1 "f").1

/-- A comment that is not opened by `/**`, with nothing after its opening. -/
def plainComment : String := "/*\n * f:\n *\n * Does it.\n */\nint f(int x);\n"

/-- It is taken for the documentation of the function after it. -/
theorem opensDoc_of_plainComment :
    plainComment.toList[2]? = some '\n'
      ∧ (ofText plainComment).takeLine.1 = some ['/', '*']
      ∧ (ofText plainComment).next.1.any (isDoc ·.text) = true
      ∧ ((Catalog.ofText {} "a.h" plainComment).result.toOption.bind (·.functions.get? "f")).bind
          (·.function?.map (·.description)) = some "Does it." :=
  ⟨by decide +kernel, by decide +kernel, by decide +kernel, by decide +kernel⟩

end Lexer

end HeaderAtlas
