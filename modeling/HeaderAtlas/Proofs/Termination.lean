import HeaderAtlas.Proofs.Reader.Invariant
import HeaderAtlas.Proofs.Reader.Recursion

/-!
# A scan ends, and with it the tokens

The size of a scan counts the tokens left in the feed, the one in the pushback slot and the
current one. No reader adds to it, and the items of a file and the rounds of the loops that
read them take away from it, also where errors are switched off. A scan therefore ends after
finitely many steps, and if it ends well, there is nothing left.
-/

namespace HeaderAtlas

open Ending

variable {σ : Type} [Feed σ] [LawfulFeed σ] {α : Type} {env : ScanEnv}

namespace Reader

/-- Every run of the reader from this state that does not fail leaves less. -/
def Shrinks (env : ScanEnv) (m : Reader α) (s : Scanner σ) : Prop :=
  ∀ log a s', Does env m s log (.ok a s') → s'.size < s.size

/-- Every round after which the loop goes on leaves less. -/
def Dwindles (σ : Type) [Feed σ] [LawfulFeed σ] (env : ScanEnv) (round : α → Reader (Round α)) :
    Prop :=
  ∀ a (s : Scanner σ) log b s', Does env (round a) s log (.ok (.again b) s') → s'.size < s.size

theorem Does.steady {m : Reader α} {s : Scanner σ} {log : List (Event σ)} {r : Ending σ α}
    (h : Does env m s log r) (hm : m.Regular fun _ => True) : s.Steady r.state := by
  rw [← h.eq_run hm]
  exact steady_run env (Routine.steady_run env) m s

theorem PassesOn.shrinks {m : Reader α} {s : Scanner σ} (h : PassesOn (fun _ => True) env m s)
    (hm : m.Regular fun _ => True) : Shrinks env m s := by
  intro log a s' hdoes
  have hsteady := hdoes.steady hm
  exact (hsteady.passed_iff.mpr (h a s' (hdoes.eq_run hm) trivial)).2

theorem Progresses.dwindles {round : α → Reader (Round α)} (h : Progresses round)
    (hround : ∀ a, (round a).Regular fun _ => True) : Dwindles σ env round := by
  intro a s log b s' hdoes
  have hsteady := hdoes.steady (hround a)
  exact (hsteady.passed_iff.mpr (h σ env a b s s' (hdoes.eq_run (hround a)))).2

/-- An item that starts with a name leaves less, also if it cannot be read. -/
theorem size_blockRound {s : Scanner σ} {t : Token} (hcur : s.current = some t)
    (hname : t.isName = true) {log : List (Event σ)} {r : Ending σ Unit}
    (h : Does env blockRound s log r) : r.state.size < s.size := by
  have hregular : blockRound.Regular fun _ => True := regular_blockRound trivial
  have hpassed : PassedFrom s (blockRound.run (Routine.run env) env s) :=
    passed_blockRound_of_name hcur hname
  rw [h.eq_run hregular] at hpassed
  exact ((h.steady hregular).passed_iff.mpr hpassed).2

end Reader

/-! ## The end of a list -/

/-- Where there is no current token, the list and the pushback slot are used up. -/
def Scanner.UsedUp (s : Scanner (List Token)) : Prop :=
  s.current = none → s.stream = ⟨[], none⟩

theorem Scanner.usedUp_invariant (env : ScanEnv) : Invariant env UsedUp where
  edit s e h := by
    intro hcur
    rw [current_edit] at hcur
    rw [stream_edit, h hcur]
  dropLine s failure h := h
  advance s _ := eq_empty_of_advance env s
  unread s₀ s t _ _ _ _ := nofun

theorem stream_of_readFile {ts : List Token} {s : Scanner (List Token)}
    (h : Reader.readFile.run (Routine.run env) env (Scanner.start env ts) = .ok () s) :
    s.stream = ⟨[], none⟩ := by
  -- At the start there is no current token yet, so the invariant begins one token later.
  have hloop := (Scanner.usedUp_invariant env).reader (.loop Reader.fileRound ()) _
    (Scanner.eq_empty_of_advance env (Scanner.start env ts))
  have hs : (Reader.readFile.run (Routine.run env) env (Scanner.start env ts)).state = s := by
    rw [h]
    rfl
  have hused : s.UsedUp := hs ▸ hloop
  exact hused (Reader.current_of_readFile h)

/-! ## The whole scan -/

open Reader

/-- A scan ends; what the size does on the way; and what is left at the end. Of the loops, every
round leaves less after which there is another one, and also the last one if it is begun on
a token that the loop does not end on. -/
theorem scan_terminates (env : ScanEnv) (ts : List Token) :
    (∃ log, Does env readFile (Scanner.start env ts) log (Scanner.run env ts)) ∧
    (∀ (s : Scanner (List Token)) log r, Does env (call .type) s log r →
      r.state.size ≤ s.size) ∧
    (∀ (s : Scanner (List Token)) t, s.current = some t → t.isName = true →
      ∀ log r, Does env blockRound s log r → r.state.size < s.size) ∧
    (Dwindles (List Token) env paramRound ∧ (∀ a, Dwindles (List Token) env (fieldRound a)) ∧
      (∀ commentsLead, Dwindles (List Token) env (enumRound commentsLead)) ∧
      (∀ tag, Dwindles (List Token) env (typedefRound tag)) ∧
      Dwindles (List Token) env linkageRound) ∧
    (∀ (s : Scanner (List Token)) t, s.current = some t →
      (∀ params, Shrinks env (paramRound params) s) ∧
      (∀ a fields, Shrinks env (fieldRound a fields) s) ∧
      (∀ commentsLead p, Shrinks env (enumRound commentsLead p) s) ∧
      (t.isName = true → ∀ tag p, Shrinks env (typedefRound tag p) s) ∧
      (t.isSep "\x7d" = false → Shrinks env (linkageRound ()) s)) ∧
    (∀ log s, Does env readFile (Scanner.start env ts) log (.ok () s) →
      s.stream.feed = [] ∧ s.stream.held = none) := by
  have hfile : readFile.Regular fun _ => True := regular_readFile trivial
  refine ⟨hfile.exists_does env _, ?_, ?_, ?_, ?_, ?_⟩
  · intro s log r h
    exact (h.steady (m := call .type) trivial).size_le
  · intro s t hcur hname log r h
    exact size_blockRound hcur hname h
  · refine ⟨?_, fun a => ?_, fun lead => ?_, fun tag => ?_, ?_⟩
    · exact progresses_paramRound.dwindles (regular_paramRound trivial)
    · exact (progresses_fieldRound a).dwindles (regular_fieldRound trivial a)
    · exact (progresses_enumRound lead).dwindles (regular_enumRound lead)
    · exact (progresses_typedefRound tag).dwindles (regular_typedefRound tag)
    · exact progresses_linkageRound.dwindles fun _ => regular_linkageRound trivial
  · intro s t hcur
    refine ⟨fun params => ?_, fun a fields => ?_, fun lead p => ?_, fun hname tag p => ?_,
      fun hopen => ?_⟩
    · exact (passesOn_paramRound params hcur).shrinks (regular_paramRound trivial params)
    · exact (passesOn_fieldRound a fields hcur).shrinks (regular_fieldRound trivial a fields)
    · exact (passesOn_enumRound lead p hcur).shrinks (regular_enumRound lead p)
    · exact (passesOn_typedefRound tag p hcur hname).shrinks (regular_typedefRound tag p)
    · exact (passesOn_linkageRound hcur hopen).shrinks (regular_linkageRound trivial)
  · intro log s h
    rw [stream_of_readFile (h.eq_run hfile)]
    exact ⟨rfl, rfl⟩

/-- A typedef without a name, a stray parenthesis and a parameter list that is not closed, with
errors switched off. -/
def brokenTokens : List Token :=
  [⟨.comment, " DOC_DISABLE "⟩, ⟨.name, "typedef"⟩, ⟨.name, "int"⟩, ⟨.separator, ";"⟩,
    ⟨.separator, ")"⟩, ⟨.name, "int"⟩, ⟨.name, "f"⟩, ⟨.separator, "("⟩, ⟨.name, "int"⟩]

theorem scan_of_brokenTokens :
    (∃ log s, Does (ScanOptions.env {} "a.h") readFile
        (Scanner.start (ScanOptions.env {} "a.h") brokenTokens) log (.ok () s)
      ∧ s.stream.feed = [] ∧ s.stream.held = none) ∧
    ∀ log r, Does (ScanOptions.env {} "a.h") blockRound
        ((Scanner.start (ScanOptions.env {} "a.h") brokenTokens).advance (ScanOptions.env {} "a.h"))
        log r → r.state.size < 8 := by
  obtain ⟨⟨log, hlog⟩, -, hitem, -, -, hend⟩ :=
    scan_terminates (ScanOptions.env {} "a.h") brokenTokens
  refine ⟨?_, fun log r h => ?_⟩
  · have hok : (Scanner.run (ScanOptions.env {} "a.h") brokenTokens).value? = some () := by
      decide +kernel
    rw [eq_ok_of_value? hok] at hlog
    exact ⟨log, _, hlog, hend log _ hlog⟩
  · have hsize : ((Scanner.start (ScanOptions.env {} "a.h") brokenTokens).advance
        (ScanOptions.env {} "a.h")).size = 8 := by
      decide +kernel
    rw [← hsize]
    exact hitem _ ⟨.name, "typedef"⟩ (by decide +kernel) rfl log r h

end HeaderAtlas
