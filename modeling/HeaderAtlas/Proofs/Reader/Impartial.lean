import HeaderAtlas.Proofs.Reader.Grammar
import HeaderAtlas.Proofs.Reader.Twins

/-!
# The grammar makes nothing of lines

A reader is impartial if it is its own twin: it may write down what the scans of a kinship
differ in, but it does not act on it. The connectives hand this on, so that it is a property of
the whole grammar if the readers that write something down have it (`Pervasive`). This is shown
here, once for all kinships.

Lines go into places and into the enumerators of a block, which are written down when the
block is over. The error switch is looked at where a failure is raised and nowhere else. Uses
are collected in bodies only, and a body is passed to the grammar as something that is known to
be impartial: where both scans collect uses or neither does, it is (`impartial_readBody`).
-/

namespace HeaderAtlas

open Catalog (Finding)

variable {α β : Type} {K : Kinship}

/-- The same enumerator, up to its line. -/
def Enumerator.Alike (K : Kinship) (e e' : Enumerator) : Prop :=
  ∃ l, K.Line e.line l ∧ e' = { e with line := l }

/-- The same enumerators, up to their lines. -/
structure EnumProgress.Alike (K : Kinship) (p p' : EnumProgress) : Prop where
  settled : List.Forall₂ (Enumerator.Alike K) p.settled p'.settled
  open? : Option.Rel (Enumerator.Alike K) p.open? p'.open?
  previous : p.previous = p'.previous

theorem Round.Alike.of_eq {x y : Round α} (h : x = y) : Round.Alike Eq x y := by
  subst h
  cases x with
  | again a => exact .again rfl
  | done a => exact .done rfl

namespace Reader

/-- The reader is its own twin. -/
abbrev Impartial (K : Kinship) (m : Reader α) : Prop := Has (fun _ m => Twin K Eq m m) m

theorem Impartial.twin {m : Reader α} [h : Impartial K m] : Twin K Eq m m := h.holds

/-- What comes after an impartial reader is begun with the same result. -/
theorem Twin.same {m : Reader α} {f f' : α → Reader β} {Q : β → β → Prop} [hm : Impartial K m]
    (h : ∀ a, Twin K Q (f a) (f' a)) : Twin K Q (m >>= f) (m >>= f') :=
  .andThen hm.twin fun a _ hab => hab ▸ h a

open Has

/-! ## Failing -/

theorem twin_place : Twin K (Place.Alike K) place place := by
  refine .andThen .env fun e e' he => .andThen .line fun l l' hl => .give ⟨?_, hl⟩
  rw [he.1, he.2]
  rfl

/-- Failures that differ in their places only are raised alike. -/
theorem twin_raise {e e' : Failure} (h : e.Alike K e') : Twin K Eq (raise e) (raise e') := by
  refine .andThen .look fun v w hv => ?_
  obtain ⟨rfl, hswitch⟩ := hv
  cases hoff : v.errorsOff with
  | true => exact .edit (.swallow (hoff ▸ hswitch) h)
  | false => exact .fail (hoff ▸ hswitch) h

/-! ## Connectives -/

instance : Compositional (fun _ m => Twin K Eq m m) where
  give _ := .give rfl
  bind hm hf := .andThen hm fun a _ hab => hab ▸ hf a
  env_bind {_ f} h hf := by
    have henv : f K.env' = f K.env := h K.env K.collects
    refine .andThen .env fun e e' he => ?_
    rw [he.1, he.2, henv]
    exact hf K.env
  look := Twin.look.mono fun _ _ h => h.1
  advance := .advance
  past hm := .past fun name => (hm name).mono fun _ _ h => h ▸ ⟨rfl, rfl⟩
  loop hround := .loop (fun a _ hab => hab ▸ (hround a).mono fun _ _ => .of_eq) rfl
  call r := .call r
  warn topic messages := .edit (.warn topic messages)
  forget := .edit .forget
  malformed message := .malformed message

instance (violation : Option WidthPolicy.Violation) : Impartial K (enforce violation) where
  holds := by
    unfold enforce
    split
    · exact .andThen twin_place fun p q hpq => twin_raise (.width _ hpq)
    · exact .give rfl

instance (name : String) (category : Category) (detail : Option Detail) (extra : Option String)
    (isStatic : Bool) : Impartial K (record name category detail extra isStatic) :=
  ⟨.edit (.record name category detail extra isStatic)⟩

/-! ## Blocks in braces -/

/-- Where both scans collect uses or neither does, they note the same uses. -/
theorem impartial_noteUse (hcollect : K.collects = K.env.collectUsages) (t : Token) :
    Impartial K (noteUse t) := by
  have hfind : ∀ (role : Role) {p q : Place}, p.Alike K q →
      Twin K Eq (edit (.find [.use t.text role p])) (edit (.find [.use t.text role q])) :=
    fun role _ _ hpq => .edit (.find (.cons (.use t.text role hcollect hpq) .nil))
  unfold noteUse
  split
  · infer_instance
  refine env_bind (fun _ _ => rfl) fun e => ?_
  dsimp only
  split
  · refine ⟨.andThen twin_place fun p q hpq => ?_⟩
    split
    · exact hfind _ hpq
    -- The place is written down in the end; what is looked at on the way is the same.
    refine Twin.same fun opens => ?_
    split
    · exact .andThen (hfind _ hpq) fun _ _ _ => .advance
    refine Twin.same fun isName => ?_
    split
    · refine Twin.same fun _ => Twin.same fun _ => Twin.same fun _ => Twin.same fun _ => ?_
      split
      · exact hfind _ hpq
      · exact .give rfl
    · exact .give rfl
  · infer_instance

theorem impartial_bodyRound (hcollect : K.collects = K.env.collectUsages) (depth : Nat) :
    Impartial K (bodyRound depth) := by
  have hnote := impartial_noteUse hcollect
  have henv : K.env' = K.env := by rw [Kinship.env', hcollect]
  unfold bodyRound
  refine after fun ends => ?_
  split
  · infer_instance
  refine after fun opens => ?_
  split
  · infer_instance
  refine after fun closes => ?_
  split
  · infer_instance
  refine ⟨.andThen .env fun e e' he => ?_⟩
  rw [he.1, he.2, henv]
  split
  · refine Twin.same fun t => ?_
    cases t with
    | none => exact .give rfl
    | some t => exact Twin.same fun _ => .give rfl
  · exact Twin.same fun _ => .give rfl

theorem impartial_readBody (hcollect : K.collects = K.env.collectUsages) :
    Impartial K readBody := by
  have := impartial_bodyRound hcollect
  unfold readBody
  infer_instance

/-! ## Enumerations -/

theorem twin_settle {p p' : EnumProgress} (h : p.Alike K p') :
    Twin K (EnumProgress.Alike K) (settle p) (settle p') := by
  have hopen := h.open?
  unfold settle
  generalize p.open? = o at hopen
  generalize p'.open? = o' at hopen
  cases hopen with
  | none => exact .give h
  | @some e e' he =>
    obtain ⟨l, hl, rfl⟩ := he
    refine Twin.same fun comment => .give ⟨List.rel_append h.settled ?_, .none, h.previous⟩
    cases comment with
    | none => exact .cons ⟨l, hl, rfl⟩ .nil
    | some description => exact .cons ⟨l, hl, rfl⟩ .nil

theorem twin_enumRound (commentsLead : Bool) {p p' : EnumProgress} (h : p.Alike K p') :
    Twin K (Round.Alike (EnumProgress.Alike K)) (enumRound commentsLead p)
      (enumRound commentsLead p') := by
  unfold enumRound
  refine Twin.same fun v => ?_
  split
  · exact .give (.done h)
  · next t _ =>
    split
    · exact Twin.same fun _ => Twin.same fun _ => .give (.again h)
    split
    · exact .andThen (twin_settle h) fun q q' hq => Twin.same fun _ => .give (.done hq)
    split
    · exact Twin.same fun _ => .give (.again h)
    -- From here on there is a name, and its line goes into the enumerator.
    refine .andThen (twin_settle h) fun q q' hq => .andThen .line fun l l' hl => ?_
    refine Twin.same fun _ => ?_
    rw [hq.previous]
    refine Twin.same fun value => ?_
    obtain ⟨value, numeric⟩ := value
    refine Twin.same fun comma => ?_
    split
    · have hgoOn : ∀ {r r' : EnumProgress}, r.Alike K r' →
          Twin K (Round.Alike (EnumProgress.Alike K))
            (do let r ← pure r; advance; return .again r)
            (do let r ← pure r'; advance; return .again r) :=
        fun hr => .andThen (.give hr) fun _ _ hr => Twin.same fun _ => .give (.again hr)
      dsimp only
      split
      · refine Twin.same fun comment => hgoOn ⟨?_, hq.open?, rfl⟩
        exact List.rel_append hq.settled (.cons ⟨l', hl, rfl⟩ .nil)
      · exact hgoOn ⟨hq.settled, .some ⟨l', hl, rfl⟩, rfl⟩
    · exact .give (.again ⟨hq.settled, .some ⟨l', hl, rfl⟩, rfl⟩)

theorem twin_readEnumerators :
    Twin K (List.Forall₂ (Enumerator.Alike K)) readEnumerators readEnumerators := by
  refine Twin.same fun v => .andThen (.loop (fun p p' hp => twin_enumRound _ hp) ?_) ?_
  · exact ⟨.nil, .none, rfl⟩
  · exact fun p p' hp => .give hp.settled

theorem twin_recordEnumerators {es es' : List Enumerator}
    (h : List.Forall₂ (Enumerator.Alike K) es es') (enumType : Option String) :
    Twin K Eq (recordEnumerators es enumType) (recordEnumerators es' enumType) := by
  refine .andThen .env fun e e' he => Twin.same fun v => ?_
  rw [he.1, he.2]
  refine .edit (.find ?_)
  rw [List.forall₂_map_left_iff, List.forall₂_map_right_iff]
  refine h.imp fun a b hab => ?_
  obtain ⟨l, hl, rfl⟩ := hab
  exact .declaration _ _ (K.env.observe v.guards a.line _ _ _) hl

/-! ## The grammar -/

/-- The grammar is impartial, if bodies are. -/
instance [hbody : Impartial K readBody] : Pervasive (fun _ m => Twin K Eq m m) where
  record_functionType _ _ _ _ := Impartial.twin
  record_typedef _ _ _ _ := Impartial.twin
  record_var _ _ _ _ := Impartial.twin
  recordAggregate a name fields := by
    have hrecord : Impartial K (recordAggregate a name fields) := by
      unfold recordAggregate
      split
      · exact env_bind (fun _ _ => rfl) fun _ => inferInstance
      · infer_instance
    exact hrecord.twin
  recordFunction name returnType params isStatic isDefinition := by
    have hrecord : Impartial K (recordFunction name returnType params isStatic isDefinition) :=
      env_bind (fun _ _ => rfl) fun _ => inferInstance
    exact hrecord.twin
  enumerators hm := by
    refine .andThen twin_readEnumerators fun es es' hes => Twin.same fun name => ?_
    exact .andThen (twin_recordEnumerators hes name) fun _ _ _ => hm
  readBody := hbody.twin

end Reader

end HeaderAtlas
