import Mathlib.Data.List.Forall2
import HeaderAtlas.Proofs.Reader.Departures
import HeaderAtlas.Proofs.Reader.Progress

/-!
# Scans that differ in what is only written down

Two scans in `Lockstep` look the same to every reader. Scans may also differ in what readers
see but only write down, such as the line being read. Then it matters what a reader does with
it, and it has to be shown of each reader that it makes no difference of it.

A `Kinship` says in what two scans may differ. Two readers are twins (`Twin`) if they do the
same up to such differences, and their results are related. The relation of twins follows the
instructions of the readers and mentions no state. That twins keep a relation between scans
is then proved once (`Parallel.run`), for every relation that the instructions keep.

A kinship also tells which states of the error switch occur. Where errors are never on, twins
do not fail; where they are never off, they swallow nothing and drop no line.

The comparison may depend on what the second scan takes in on its way. `Good` are the states
from which it may go on to the next token.
-/

namespace HeaderAtlas

open Catalog (Finding)

/-! ## Differences that are allowed -/

/-- In what two scans may differ. -/
structure Kinship where
  /-- What stays the same during the first scan. -/
  env : ScanEnv
  /-- Does the second scan collect uses? -/
  collects : Bool
  /-- The states of the error switch that occur. -/
  Switch : Bool → Prop
  /-- The lines that may stand for each other. -/
  Line : Nat → Nat → Prop
  /-- The readers that are compared as a whole. -/
  Whole : Reader Unit → Prop

/-- What stays the same during the second scan. -/
def Kinship.env' (K : Kinship) : ScanEnv := { K.env with collectUsages := K.collects }

/-- The same file, and lines that may stand for each other. -/
def Place.Alike (K : Kinship) (p q : Place) : Prop := p.file = q.file ∧ K.Line p.line q.line

/-- The same failure, up to its place. -/
inductive Failure.Alike (K : Kinship) : Failure → Failure → Prop
  | malformed (message : String) {p q : Place} (h : p.Alike K q) :
      Alike K (.malformed message p) (.malformed message q)
  | width (message : String) {p q : Place} (h : p.Alike K q) :
      Alike K (.width message p) (.width message q)

/-- The same finding, up to its line. A use is a finding of both scans only if they agree on
collecting uses. -/
inductive Catalog.Finding.Alike (K : Kinship) : Finding → Finding → Prop
  | declaration (name : String) (category : Category) (o : Observation) {l l' : Nat}
      (h : K.Line l l') :
      Alike K (.declaration name category { o with line := some l })
        (.declaration name category { o with line := some l' })
  | use (name : String) (role : Role) {p q : Place} (hcollect : K.collects = K.env.collectUsages)
      (h : p.Alike K q) : Alike K (.use name role p) (.use name role q)

/-- The same edit, up to the lines in it. -/
inductive Edit.Alike (K : Kinship) : Edit → Edit → Prop
  | swallow {e e' : Failure} (hoff : K.Switch true) (h : e.Alike K e') :
      Alike K (.swallow e) (.swallow e')
  | warn (topic : Topic) (messages : List String) :
      Alike K (.warn topic messages) (.warn topic messages)
  | find {fs fs' : List Finding} (h : List.Forall₂ (Finding.Alike K) fs fs') :
      Alike K (.find fs) (.find fs')
  | record (name : String) (category : Category) (detail : Option Detail) (extra : Option String)
      (isStatic : Bool) :
      Alike K (.record name category detail extra isStatic)
        (.record name category detail extra isStatic)
  | forget : Alike K .forget .forget

/-! Where lines stand for themselves only, nothing may differ. -/

section SameLines

variable {K : Kinship}

theorem Place.Alike.eq (hline : ∀ l l', K.Line l l' → l = l') {p q : Place} (h : p.Alike K q) :
    p = q := by
  cases p
  cases q
  obtain ⟨hfile, hl⟩ := h
  exact congr (congrArg Place.mk hfile) (hline _ _ hl)

theorem Failure.Alike.eq (hline : ∀ l l', K.Line l l' → l = l') {e e' : Failure}
    (h : e.Alike K e') : e = e' := by
  cases h with
  | malformed message h => rw [h.eq hline]
  | width message h => rw [h.eq hline]

theorem Catalog.Finding.Alike.eq (hline : ∀ l l', K.Line l l' → l = l') {f f' : Finding}
    (h : f.Alike K f') : f = f' := by
  cases h with
  | declaration name category o h => rw [hline _ _ h]
  | use name role hcollect h => rw [h.eq hline]

theorem Edit.Alike.eq (hline : ∀ l l', K.Line l l' → l = l') {e e' : Edit} (h : e.Alike K e') :
    e = e' := by
  cases h with
  | swallow hoff h => rw [h.eq hline]
  | warn topic messages => rfl
  | find h =>
    have hfs := h.imp fun f f' (hf : Finding.Alike K f f') => hf.eq hline
    rw [List.forall₂_eq_eq_eq] at hfs
    rw [hfs]
  | record name category detail extra isStatic => rfl
  | forget => rfl

end SameLines

/-! ## Twins -/

variable {α β : Type}

/-- Both rounds go on, or both are done, with related values. -/
inductive Round.Alike (P : α → α → Prop) : Round α → Round α → Prop
  | again {a b : α} (h : P a b) : Alike P (.again a) (.again b)
  | done {a b : α} (h : P a b) : Alike P (.done a) (.done b)

namespace Reader

/-- The readers do the same up to the differences that are allowed, with results related by
`Q`. -/
inductive Twin (K : Kinship) : {α : Type} → (α → α → Prop) → Reader α → Reader α → Prop
  | give {α : Type} {Q : α → α → Prop} {a b : α} (h : Q a b) : Twin K Q (.give a) (.give b)
  | andThen {α β : Type} {P : α → α → Prop} {Q : β → β → Prop} {m m' : Reader α}
      {f f' : α → Reader β} (first : Twin K P m m')
      (rest : ∀ a b, P a b → Twin K Q (f a) (f' b)) : Twin K Q (.andThen m f) (.andThen m' f')
  | env : Twin K (fun e e' => e = K.env ∧ e' = K.env') .env .env
  | look : Twin K (fun v w => v = w ∧ K.Switch v.errorsOff) .look .look
  | line : Twin K K.Line .line .line
  | edit {e e' : Edit} (h : e.Alike K e') : Twin K Eq (.edit e) (.edit e')
  | malformed (message : String) : Twin K Eq (malformed message) (malformed message)
  | advance : Twin K Eq .advance .advance
  | past {α : Type} {Q : α → α → Prop} {m m' : Option String → Reader (α × Bool)}
      (h : ∀ name, Twin K (fun p q => Q p.1 q.1 ∧ p.2 = q.2) (m name) (m' name)) :
      Twin K Q (.past m) (.past m')
  | loop {α : Type} {P : α → α → Prop} {round round' : α → Reader (Round α)} {a b : α}
      (h : ∀ a b, P a b → Twin K (Round.Alike P) (round a) (round' b)) (hab : P a b) :
      Twin K P (.loop round a) (.loop round' b)
  | call (r : Routine) : Twin K Eq (.call r) (.call r)
  | fail {α : Type} {Q : α → α → Prop} {e e' : Failure} (hon : K.Switch false)
      (h : e.Alike K e') : Twin K Q (.fail e) (.fail e')
  | whole {m : Reader Unit} (h : K.Whole m) : Twin K Eq m m
  | mono {α : Type} {P Q : α → α → Prop} {m m' : Reader α} (h : Twin K P m m')
      (hPQ : ∀ a b, P a b → Q a b) : Twin K Q m m'

end Reader

/-! ## What twins keep -/

open Reader Ending

variable {σ τ : Type} [Feed σ] [LawfulFeed σ] [Feed τ] [LawfulFeed τ]

/-- Related results in related states, or failures that differ in their places only. -/
inductive Tally (K : Kinship) (R : Scanner σ → Scanner τ → Prop) (Q : α → α → Prop) :
    Ending σ α → Ending τ α → Prop
  | ok {s t} {a b : α} (h : Q a b) (hR : R s t) : Tally K R Q (.ok a s) (.ok b t)
  | failed {s t} {e e' : Failure} (hon : K.Switch false) (h : e.Alike K e') (hR : R s t) :
      Tally K R Q (.failed e s) (.failed e' t)

namespace Tally

variable {K : Kinship} {R : Scanner σ → Scanner τ → Prop} {P : α → α → Prop} {Q : β → β → Prop}

omit [Feed σ] [LawfulFeed σ] [Feed τ] [LawfulFeed τ]

theorem of_ok {a : α} {s : Scanner σ} {r' : Ending τ α} (h : Tally K R P (.ok a s) r') :
    ∃ b t, r' = .ok b t ∧ P a b ∧ R s t := by
  cases h with
  | ok hab hR => exact ⟨_, _, rfl, hab, hR⟩

theorem of_failed {e : Failure} {s : Scanner σ} {r' : Ending τ α}
    (h : Tally K R P (.failed e s) r') :
    ∃ e' t, r' = .failed e' t ∧ K.Switch false ∧ e.Alike K e' ∧ R s t := by
  cases h with
  | failed hon he hR => exact ⟨_, _, rfl, hon, he, hR⟩

theorem andThen {r : Ending σ α} {r' : Ending τ α} {f : α → Scanner σ → Ending σ β}
    {g : α → Scanner τ → Ending τ β} (h : Tally K R P r r')
    (hfg : ∀ a b s t, P a b → R s t → Tally K R Q (f a s) (g b t)) :
    Tally K R Q (r.andThen f) (r'.andThen g) := by
  cases h with
  | ok hab hR => exact hfg _ _ _ _ hab hR
  | failed hon he hR => exact .failed hon he hR

theorem mono {P' : α → α → Prop} {r : Ending σ α} {r' : Ending τ α} (h : Tally K R P r r')
    (hP : ∀ a b, P a b → P' a b) : Tally K R P' r r' := by
  cases h with
  | ok hab hR => exact .ok (hP _ _ hab) hR
  | failed hon he hR => exact .failed hon he hR

end Tally

/-- A relation between two scans that every instruction keeps. -/
structure Parallel (K : Kinship) (Good : Scanner τ → Prop) (R : Scanner σ → Scanner τ → Prop) :
    Prop where
  view : ∀ {s t}, R s t → s.view = t.view
  switch : ∀ {s t}, R s t → K.Switch t.errorsOff
  line : ∀ {s t}, R s t → K.Line s.stream.line t.stream.line
  position : ∀ {s t}, R s t → s.position = t.position
  edit : ∀ {s t e e'}, R s t → e.Alike K e' → R (s.edit K.env e) (t.edit K.env' e')
  /-- Where errors are off, a malformed declaration is noted on the line that is dropped. -/
  dropLine : ∀ {s t} (message : String), R s t → t.errorsOff = true →
    R (s.swallow (.malformed message (s.place K.env))).discardLine
      (t.swallow (.malformed message (t.place K.env'))).discardLine
  advance : ∀ {s t}, R s t → Good t → R (s.advance K.env) (t.advance K.env')
  unread : ∀ {s₀ t₀ s t c}, R s₀ t₀ → s₀.current = some c → c.isName = true → R s t →
    R (s.unread c) (t.unread c)
  whole : ∀ {m : Reader Unit} {inner : (r : Routine) → Scanner σ → Ending σ r.Result}
    {inner' : (r : Routine) → Scanner τ → Ending τ r.Result} {s t}, K.Whole m →
    (∀ r s, SteadyFrom s (inner r s)) → (∀ r t, SteadyFrom t (inner' r t)) → R s t →
    Tally K R Eq (m.run inner K.env s) (m.run inner' K.env' t)

namespace Parallel

variable {K : Kinship} {Good : Scanner τ → Prop} {R : Scanner σ → Scanner τ → Prop}

/-- Related scans pass a token together. -/
theorem passed_iff (L : Parallel K Good R) {s s' : Scanner σ} {t t' : Scanner τ} (h : R s t)
    (h' : R s' t') (hs : s.Steady s') (ht : t.Steady t') : s.Passed s' ↔ t.Passed t' := by
  rw [hs.passed_iff, ht.passed_iff, L.position h, L.position h']

/-- A loop keeps the relation if its rounds do. -/
theorem iterate (L : Parallel K Good R) {P : α → α → Prop}
    {round : α → Scanner σ → Ending σ (Round α)} {round' : α → Scanner τ → Ending τ (Round α)}
    {told : α → Scanner τ → List (Scanner τ)} {s₀ : Scanner σ} {t₀ : Scanner τ}
    (hsteady : ∀ a s, SteadyFrom s (round a s)) (hsteady' : ∀ a t, SteadyFrom t (round' a t))
    (h : ∀ a b, P a b → ∀ s t, s₀.Steady s → t₀.Steady t → R s t → (∀ u ∈ told b t, Good u) →
      Tally K R (Round.Alike P) (round a s) (round' b t))
    (a b : α) (hab : P a b) (s : Scanner σ) (t : Scanner τ) (hs : s₀.Steady s) (ht : t₀.Steady t)
    (hR : R s t) (hgood : ∀ u ∈ t.iterateDepartures round' told b, Good u) :
    Tally K R P (s.iterate round a) (t.iterate round' b) := by
  have hround : Tally K R (Round.Alike P) (round a s) (round' b t) :=
    h a b hab s t hs ht hR fun u hu => hgood u (Scanner.mem_iterateDepartures_of_round hu)
  fun_induction Scanner.iterate round a s generalizing b t with
  | case1 a s c s' hr =>
    obtain ⟨d, t', hr', hcd, hR'⟩ := (hr ▸ hround).of_ok
    cases hcd with
    | done hcd =>
      rw [Scanner.iterate_done hr']
      exact .ok hcd hR'
  | case2 a s c s' hr hp _ ih =>
    obtain ⟨d, t', hr', hcd, hR'⟩ := (hr ▸ hround).of_ok
    have hst := (hsteady a s).of_eq hr
    have htt := (hsteady' b t).of_eq hr'
    have hp' := (L.passed_iff hR hR' hst htt).mp hp
    cases hcd with
    | @again _ d hcd =>
      have hgood' : ∀ u ∈ t'.iterateDepartures round' told d, Good u := fun u hu =>
        hgood u (Scanner.mem_iterateDepartures_of_again hr' hp' hu)
      rw [Scanner.iterate_again hr' hp']
      exact ih d hcd t' (hs.trans hst) (ht.trans htt) hR' hgood' <|
        h c d hcd s' t' (hs.trans hst) (ht.trans htt) hR' fun u hu =>
          hgood' u (Scanner.mem_iterateDepartures_of_round hu)
  | case3 a s c s' hr hp =>
    obtain ⟨d, t', hr', hcd, hR'⟩ := (hr ▸ hround).of_ok
    have hst := (hsteady a s).of_eq hr
    have htt := (hsteady' b t).of_eq hr'
    cases hcd with
    | again hcd =>
      rw [Scanner.iterate_stuck hr' (mt (L.passed_iff hR hR' hst htt).mpr hp)]
      exact .ok hcd hR'
  | case4 a s e s' hr =>
    obtain ⟨e', t', hr', hon, he, hR'⟩ := (hr ▸ hround).of_failed
    rw [Scanner.iterate_failed hr']
    exact .failed hon he hR'

/-- Twins keep the relation, if the routines inside them do. These are begun at states that
come after the two given ones. -/
theorem run (L : Parallel K Good R) {inner : (r : Routine) → Scanner σ → Ending σ r.Result}
    {inner' : (r : Routine) → Scanner τ → Ending τ r.Result}
    {told : Routine → Scanner τ → List (Scanner τ)} {s₀ : Scanner σ} {t₀ : Scanner τ}
    (hsteady : ∀ r s, SteadyFrom s (inner r s)) (hsteady' : ∀ r t, SteadyFrom t (inner' r t))
    (hinner : ∀ r s t, s₀.Steady s → t₀.Steady t → R s t → (∀ u ∈ told r t, Good u) →
      Tally K R Eq (inner r s) (inner' r t))
    {α : Type} {Q : α → α → Prop} {m m' : Reader α} (h : Twin K Q m m') (s : Scanner σ)
    (t : Scanner τ) (hs : s₀.Steady s) (ht : t₀.Steady t) (hR : R s t)
    (hgood : ∀ u ∈ m'.departures inner' told K.env' t, Good u) :
    Tally K R Q (m.run inner K.env s) (m'.run inner' K.env' t) := by
  induction h generalizing s t with
  | give h => exact .ok h hR
  | @andThen _ _ P Q m m' f f' _ _ ihm ihf =>
    have hfirst := ihm s t hs ht hR fun u hu => hgood u (List.mem_append_left _ hu)
    rw [Reader.run, Reader.run]
    generalize hr : m.run inner K.env s = r at hfirst
    generalize hr' : m'.run inner' K.env' t = r' at hfirst
    cases hfirst with
    | failed hon he hR' => exact .failed hon he hR'
    | @ok s' t' a b hab hR' =>
      refine ihf a b hab s' t' (hs.trans ((steady_run K.env hsteady m s).of_eq hr))
        (ht.trans ((steady_run K.env' hsteady' m' t).of_eq hr')) hR' fun u hu => hgood u ?_
      rw [Reader.departures, hr']
      exact List.mem_append_right _ hu
  | env => exact .ok ⟨rfl, rfl⟩ hR
  | look =>
    refine .ok ⟨L.view hR, ?_⟩ hR
    rw [L.view hR]
    exact L.switch hR
  | line => exact .ok (L.line hR) hR
  | edit h => exact .ok rfl (L.edit hR h)
  | malformed message =>
    have hsame : s.errorsOff = t.errorsOff := congrArg View.errorsOff (L.view hR)
    have hswitch := L.switch hR
    rw [run_malformed, run_malformed, hsame]
    cases hoff : t.errorsOff with
    | true => exact .ok rfl (L.dropLine message hR hoff)
    | false =>
      rw [hoff] at hswitch
      exact .failed hswitch (.malformed message ⟨rfl, L.line hR⟩) hR
  | advance => exact .ok rfl (L.advance hR (hgood t (List.mem_singleton.mpr rfl)))
  | @past _ Q m m' _ ih =>
    have hcur : s.current = t.current := congrArg View.current (L.view hR)
    rw [Reader.departures, ← hcur] at hgood
    rw [Reader.run, Reader.run, ← hcur]
    cases hc : s.current.filter Token.isName with
    | some c =>
      rw [hc] at hgood
      obtain ⟨hsc, hname⟩ := Option.filter_eq_some_iff.mp hc
      have hinside := ih (some c.text) _ _ (hs.trans (Scanner.steady_advance K.env s))
        (ht.trans (Scanner.steady_advance K.env' t)) (L.advance hR (hgood t List.mem_cons_self))
        fun u hu => hgood u (List.mem_cons_of_mem _ hu)
      refine hinside.andThen fun p q s' t' hpq hR' => ?_
      obtain ⟨a, back⟩ := p
      obtain ⟨b, back'⟩ := q
      obtain ⟨hab, rfl⟩ := hpq
      cases back with
      | false => exact .ok hab hR'
      | true => exact .ok hab (L.unread hR hsc hname hR')
    | none =>
      rw [hc] at hgood
      exact (ih none s t hs ht hR hgood).andThen fun p q s' t' hpq hR' => .ok hpq.1 hR'
  | loop _ hab ih =>
    exact L.iterate (fun a s => steady_run K.env hsteady _ s)
      (fun a t => steady_run K.env' hsteady' _ t) ih _ _ hab s t hs ht hR hgood
  | call r => exact hinner r s t hs ht hR hgood
  | fail hon h => exact .failed hon h hR
  | whole h => exact L.whole h hsteady hsteady' hR
  | mono _ hPQ ih => exact (ih s t hs ht hR hgood).mono hPQ

/-- A routine keeps the relation, if the bodies of all routines are their own twins. -/
theorem routine (L : Parallel K Good R) (hbody : ∀ r : Routine, Twin K Eq r.body r.body)
    (r : Routine) (s : Scanner σ) (t : Scanner τ) (hR : R s t)
    (hgood : ∀ u ∈ r.departures K.env' t, Good u) :
    Tally K R Eq (r.run K.env s) (r.run K.env' t) := by
  fun_induction Routine.run K.env r s generalizing t with
  | case1 r s ih =>
    rw [Routine.departures] at hgood
    rw [Routine.run]
    refine L.run (fun q s' => ?_) (fun q t' => ?_) (fun q s' t' hs ht hR' hgood' => ?_)
      (hbody r) s t (.refl s) (.refl t) hR hgood
    · exact r.steady_inner K.env s q s'
    · exact r.steady_inner K.env' t q t'
    · have hadmits : r.Admits q s s' ↔ r.Admits q t t' := by
        unfold Routine.Admits
        rw [L.passed_iff hR hR' hs ht]
        simp only [hs.size_le, ht.size_le]
      by_cases hq : r.Admits q s s'
      · rw [dif_pos (hadmits.mp hq)] at hgood'
        rw [dif_pos hq, dif_pos (hadmits.mp hq)]
        exact ih q s' hq t' hR' hgood'
      · rw [dif_neg hq, dif_neg (mt hadmits.mpr hq)]
        exact .ok rfl hR'

/-- Twins of the grammar keep the relation. -/
theorem reader (L : Parallel K Good R) (hbody : ∀ r : Routine, Twin K Eq r.body r.body)
    {Q : α → α → Prop} {m m' : Reader α} (h : Twin K Q m m') {s : Scanner σ} {t : Scanner τ}
    (hR : R s t)
    (hgood : ∀ u ∈ m'.departures (Routine.run K.env') (Routine.departures K.env') K.env' t,
      Good u) :
    Tally K R Q (m.run (Routine.run K.env) K.env s) (m'.run (Routine.run K.env') K.env' t) :=
  L.run (Routine.steady_run K.env) (Routine.steady_run K.env')
    (fun r s t _ _ h hgood => L.routine hbody r s t h hgood) h s t (.refl s) (.refl t) hR hgood

end Parallel

end HeaderAtlas
