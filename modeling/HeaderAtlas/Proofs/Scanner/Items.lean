import HeaderAtlas.Proofs.Reader.Passing
import HeaderAtlas.Proofs.Scanner.Follow

/-!
# The items of a file

A scan goes from item to item. Where one starts, everything still to come depends on the
state only (`ItemStart.run_eq`), and where the token that ends one has been reached, on
the state and on what is left to do for that item (`ItemEnd.run_eq`).

A longer feed that starts with the tokens of another one comes to the same places
(`ItemStart.follow`, `ItemEnd.follow`).
-/

namespace HeaderAtlas

open Ending

variable {σ τ : Type} [Feed σ] [LawfulFeed σ] [Feed τ] [LawfulFeed τ] {env : ScanEnv}

/-- The scan of a feed has read some items, and passed them. -/
inductive ItemStart (env : ScanEnv) (feed : σ) : Scanner σ → Prop
  | first : ItemStart env feed ((Scanner.start env feed).advance env)
  | next {s s' : Scanner σ} {t : Token} (before : ItemStart env feed s)
      (token : s.current = some t)
      (item : Reader.blockRound.run (Routine.run env) env s = .ok () s') : ItemStart env feed s'

/-- The scan of a feed stands on the token that ends an item. This token is not a name: it
is a `;`, a closing brace or out of place. Before the first item there is nothing to be
passed. -/
inductive ItemEnd (env : ScanEnv) (feed : σ) : Closing → Scanner σ → Prop
  | start : ItemEnd env feed .nothing (.start env feed)
  | item {c : Closing} {s u : Scanner σ} {t t' : Token} (start : ItemStart env feed s)
      (first : s.current = some t)
      (read : Reader.readItem.run (Routine.run env) env s = .ok (some c) u)
      (last : u.current = some t') (punctuation : t'.isName = false) : ItemEnd env feed c u

variable {feed : σ} {feed' : τ} {c : Closing} {s u : Scanner σ} {t : Token}

/-! ## The rest of a scan -/

/-- The loop over the items goes on after each of them. -/
theorem Reader.run_loop_fileRound (first : s.current = some t) :
    (loop fileRound ()).run (Routine.run env) env s
      = (blockRound.run (Routine.run env) env s).andThen fun _ s' =>
          (loop fileRound ()).run (Routine.run env) env s' := by
  have hround : (fileRound ()).run (Routine.run env) env s
      = (blockRound.run (Routine.run env) env s).andThen fun _ s' => .ok (.again ()) s' := by
    rw [fileRound, run_bind, run_atEnd, andThen_ok, first, Option.isNone_some,
      if_neg Bool.false_ne_true]
    rfl
  cases hblock : blockRound.run (Routine.run env) env s with
  | failed e s' =>
    rw [hblock] at hround
    exact Scanner.iterate_failed hround
  | ok a s' =>
    rw [hblock] at hround
    -- The item passes a token, so the loop is not given up.
    have hsteady := (steady_run env (Routine.steady_run env) blockRound s).of_eq hblock
    have hpassed := passed_blockRound first hblock
    exact Scanner.iterate_again hround (hsteady.passed_iff.mpr hpassed)

/-- From the start of an item, the rest of the scan is the loop over the items. -/
theorem ItemStart.run_eq (h : ItemStart env feed s) :
    Scanner.run env feed
      = (Reader.loop Reader.fileRound ()).run (Routine.run env) env s := by
  induction h with
  | first => rfl
  | next before token item ih => rw [ih, Reader.run_loop_fileRound token, item, andThen_ok]

/-- From the end of an item, the rest of the scan is what is left to do for it, and the
loop over the items. -/
theorem ItemEnd.run_eq (h : ItemEnd env feed c u) :
    Scanner.run env feed = ((Reader.close c).run (Routine.run env) env u).andThen fun _ s =>
      (Reader.loop Reader.fileRound ()).run (Routine.run env) env s := by
  cases h with
  | start => rfl
  | item start first read last punctuation =>
    rw [start.run_eq, Reader.run_loop_fileRound first, Reader.blockRound, Reader.run_bind, read]
    rfl

/-! ## Feeds that follow each other -/

variable {r : σ → τ → Prop} {dry : σ → Prop}

/-- A scan that follows another one comes to the start of the same items, until the other
one is spent. -/
theorem ItemStart.follow (hr : Follows r dry) (hfeed : r feed feed')
    (h : ItemStart env feed s) :
    (∃ s', ItemStart env feed' s' ∧ InStep r s s') ∨ Spent dry s := by
  have L := hr.lockstep env
  induction h with
  | first =>
    have hstart : InStep r (.start env feed) (.start env feed') := ⟨feed', hfeed, rfl⟩
    rcases L.advance hstart with hstep | hoff
    · exact .inl ⟨_, .first, hstep⟩
    · exact .inr hoff
  | next before token item ih =>
    rcases ih with ⟨v, hv, hstep⟩ | hoff
    · have hblock := L.reader Reader.blockRound hstep
      rw [item] at hblock
      rcases hblock.of_ok with ⟨v', hv', hstep'⟩ | hoff
      · have htoken : v.current = _ := (congrArg View.current (L.view hstep)).symm.trans token
        exact .inl ⟨v', .next hv htoken hv', hstep'⟩
      · exact .inr hoff
    · have := L.off.reader Reader.blockRound _ hoff
      rw [item] at this
      exact .inr this

/-- A scan that follows another one comes to the end of the same items. -/
theorem ItemEnd.follow (hr : Follows r dry) (hfeed : r feed feed') (h : ItemEnd env feed c u) :
    ∃ u', ItemEnd env feed' c u' ∧ InStep r u u' := by
  have L := hr.lockstep env
  cases h with
  | start => exact ⟨_, .start, feed', hfeed, rfl⟩
  | item start first read last punctuation =>
    -- Were the first scan spent, it would not stand on such a token.
    have hspent : ¬ Spent dry u := Spent.not_of_current last punctuation
    rcases start.follow hr hfeed with ⟨v, hv, hstep⟩ | hoff
    · have hread := L.reader Reader.readItem hstep
      rw [read] at hread
      rcases hread.of_ok with ⟨v', hv', hstep'⟩ | hoff
      · have hfirst : v.current = _ := (congrArg View.current (L.view hstep)).symm.trans first
        have hlast : v'.current = _ := (congrArg View.current (L.view hstep')).symm.trans last
        exact ⟨v', .item hv hfirst hv' hlast punctuation, hstep'⟩
      · exact absurd hoff hspent
    · have := L.off.reader Reader.readItem _ hoff
      rw [read] at this
      exact absurd this hspent

end HeaderAtlas
