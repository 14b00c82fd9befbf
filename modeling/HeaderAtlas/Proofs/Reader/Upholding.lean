import HeaderAtlas.Proofs.Reader.Departures
import HeaderAtlas.Proofs.Reader.Grammar

/-!
# What the grammar upholds

A property that each instruction keeps is upheld by all readers (`Traced`). But a property of
what is written down, say of the structs or of the macros, is not kept by just any finding.
Such properties do not look at enumerators and uses, and are kept by all the rest that an
instruction does (`Selective`). That is enough for the grammar to uphold them, but for the
readers that record a declaration: these make up the rest of a `Pervasive` property.
-/

namespace HeaderAtlas

-- An instance is found for a whole reader at once, and some are long.
set_option synthInstance.maxSize 512

/-- Is it an enumerator or a use? -/
def Catalog.Finding.isMinor : Finding → Bool
  | .declaration _ .enumerator _ => true
  | .declaration .. => false
  | .use .. => true

namespace Reader

variable {σ : Type} [Feed σ] [LawfulFeed σ] {α : Type} {env : ScanEnv}
  {J : List (Scanner σ) → Scanner σ → Prop}

/-- The property of the departures so far and the present state is kept by everything that an
instruction does, where nothing is written down but enumerators and uses. -/
class Selective (env : ScanEnv) (J : List (Scanner σ) → Scanner σ → Prop) : Prop where
  warn : ∀ {h s}, J h s → ∀ topic messages, J h (s.warn env topic messages)
  forget : ∀ {h s}, J h s → J h (s.edit env .forget)
  find : ∀ {h s}, J h s → ∀ {fs}, (∀ f ∈ fs, f.isMinor = true) → J h (s.find fs)
  dropLine : ∀ {h s}, J h s → ∀ failure, J h (s.swallow failure).discardLine
  advance : ∀ {h s}, J h s → J (h ++ [s]) (s.advance env)
  /-- Only a name that was the current token is put back. -/
  unread : ∀ {h₀ s₀ h s t}, J h₀ s₀ → s₀.current = some t → t.isName = true → J h s →
    J h (s.unread t)

instance : Has (Upholds env J) line := ⟨.line⟩

instance : Has (Upholds env J) place := ⟨.env_bind (.bind .line fun _ => .give _)⟩

section

variable [Selective env J]

instance : Compositional (Upholds env J) where
  give := .give
  bind := .bind
  env_bind _ hf := .env_bind (hf env)
  look := .look
  advance := .advance Selective.advance
  past := .past Selective.advance (Selective.unread env)
  loop := .loop
  call := .call
  warn topic messages := .edit fun hs => Selective.warn hs topic messages
  forget := .edit Selective.forget
  malformed message := by
    refine .bind Has.holds fun p => .bind .look fun v => ?_
    split
    · exact .dropLine fun hs => Selective.dropLine env hs _
    · exact .fail _

/-! ## Enumerators and uses -/

instance (commentsLead : Bool) (p : EnumProgress) :
    Has (Upholds env J) (enumRound commentsLead p) := by
  unfold enumRound
  refine Has.after fun v => ?_
  split <;> infer_instance

instance : Has (Upholds env J) readEnumerators := by unfold readEnumerators; infer_instance

instance (es : List Enumerator) (enumType : Option String) :
    Has (Upholds env J) (recordEnumerators es enumType) := by
  refine ⟨.env_bind (.bind .look fun v => .edit fun hs => Selective.find env hs fun f hf => ?_)⟩
  obtain ⟨e, -, rfl⟩ := List.mem_map.mp hf
  rfl

instance (t : Token) : Has (Upholds env J) (noteUse t) := by
  have hfind : ∀ role place, Has (Upholds env J) (edit (.find [.use t.text role place])) :=
    fun role place => ⟨.edit fun hs => Selective.find env hs (List.forall_mem_singleton.mpr rfl)⟩
  unfold noteUse
  split
  · infer_instance
  refine Has.env_bind (fun _ _ => rfl) fun e => ?_
  dsimp only
  split
  · refine Has.after fun here => ?_
    split <;> infer_instance
  · infer_instance

instance (depth : Nat) : Has (Upholds env J) (bodyRound depth) := by
  unfold bodyRound
  refine Has.after fun ends => ?_
  split
  · infer_instance
  refine Has.after fun opens => ?_
  split
  · infer_instance
  refine Has.after fun closes => ?_
  split
  · infer_instance
  -- Whether uses are collected depends on the scan, and either way is fine.
  refine ⟨.env_bind ?_⟩
  split
  · refine .bind Has.holds fun t => ?_
    cases t <;> exact Has.holds
  · exact Has.holds

theorem upholds_readBody : Upholds env J Unit readBody := by
  have hbody : Has (Upholds env J) readBody := by unfold readBody; infer_instance
  exact hbody.holds

theorem upholds_enumerators {m : Reader α} (hm : Upholds env J α m) :
    Upholds env J α (do
      let es ← readEnumerators
      recordEnumerators es (← currentName)
      m) :=
  .bind Has.holds fun _ => .bind Has.holds fun _ => .bind Has.holds fun _ => hm

end

end Reader

end HeaderAtlas
