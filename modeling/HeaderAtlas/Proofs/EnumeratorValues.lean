import HeaderAtlas.Proofs.Reader.Enumerations

/-!
# The values of enumerators

Enumerators are counted from the one before them, unless they have a value of their own
(`counted_of_enumeration`). The value goes on to the next comma, wherever that is. So where a value
has a comma in it, as in a call with two arguments, it is cut off there, and names after it
are read as enumerators. Which ones are recorded is told by `enumeratorsIn`
(`enumerators_of_body`).
-/

namespace HeaderAtlas

open Ending Reader

/-- Is the token a brace? -/
def Token.isBrace (t : Token) : Bool := t.isSep "\x7b" || t.isSep "\x7d"

/-- The enumerators that are read from tokens without braces: each name is one, and its value goes
on to the next comma. In the middle of a value there are none before that comma. -/
def enumeratorsIn : Bool → List Token → List WrittenEnumerator
  | _, [] => []
  | true, t :: ts => enumeratorsIn (!t.isSep ",") ts
  | false, t :: ts =>
    if t.isName then
      match ts.head?.bind assigned? with
      | some fused =>
        ⟨t.text, some ⟨fused, ts.tail.takeWhile (!·.isSep ",")⟩⟩ :: enumeratorsIn true ts
      | none => ⟨t.text, none⟩ :: enumeratorsIn false ts
    else enumeratorsIn false ts

/-- The enumerators that are read from tokens without braces, counted from zero. -/
def countedIn (ts : List Token) : List CountedEnumerator :=
  WrittenEnumerator.countAll (some (-1)) (enumeratorsIn false ts)

/-- Other tokens than names are passed over. -/
theorem enumeratorsIn_other {t : Token} (ht : t.isName = false) (ts : List Token) :
    enumeratorsIn false (t :: ts) = enumeratorsIn false ts := by
  rw [enumeratorsIn, ht]
  rfl

theorem enumeratorsIn_true (ts : List Token) :
    enumeratorsIn true ts = enumeratorsIn false (ts.dropWhile (!·.isSep ",")) := by
  induction ts with
  | nil => rfl
  | cons t ts ih =>
    rw [enumeratorsIn, List.dropWhile_cons]
    cases ht : t.isSep "," with
    | true => exact (enumeratorsIn_other (Token.isName_of_isSep ht) ts).symm
    | false => exact ih

/-- What comes after a comma does not belong to a value before it. -/
theorem takeWhile_comma (ts us : List Token) :
    (ts ++ .sep "," :: us).takeWhile (!·.isSep ",") = ts.takeWhile (!·.isSep ",") := by
  induction ts with
  | nil => rfl
  | cons t ts ih => rw [List.cons_append, List.takeWhile_cons, List.takeWhile_cons, ih]

/-- Parts between commas are read on their own. -/
theorem enumeratorsIn_append (inValue : Bool) (ts us : List Token) :
    enumeratorsIn inValue (ts ++ .sep "," :: us)
      = enumeratorsIn inValue ts ++ enumeratorsIn false us := by
  induction ts generalizing inValue with
  | nil => cases inValue <;> rfl
  | cons t ts ih =>
    cases inValue with
    | true => rw [List.cons_append, enumeratorsIn, enumeratorsIn, ih]
    | false =>
      have hhead : (ts ++ .sep "," :: us).head?.bind assigned? = ts.head?.bind assigned? := by
        cases ts <;> rfl
      rw [List.cons_append, enumeratorsIn, enumeratorsIn, hhead, ih true, ih false]
      split
      · cases hassigned : ts.head?.bind assigned? with
        | none => rfl
        | some fused =>
          cases ts with
          | nil => cases hassigned
          | cons v ts =>
            simp only [List.cons_append, List.tail_cons, takeWhile_comma]
      · rfl

/-- What an operator that starts with `=` is made of. -/
theorem Reader.assigned?_eq_some_iff {t : Token} {fused : String} :
    assigned? t = some fused ↔ t = ⟨.operator, "=" ++ fused⟩ := by
  constructor
  · intro h
    unfold assigned? at h
    split at h
    · next rest hcls htext =>
      obtain rfl := Option.some.inj h
      obtain ⟨cls, text⟩ := t
      obtain rfl : cls = .operator := hcls
      have htext' : text = String.ofList ('=' :: rest) := by rw [← htext, String.ofList_toList]
      rw [htext']
      simp
    · cases h
  · rintro rfl
    simp [assigned?]

/-- Where the reader is after an enumerator that comes before these tokens. -/
theorem exists_afterEnumerator {us : List Token} (hus : us.all (!·.isBrace) = true) :
    ∃ u rest vs, us ++ [.sep "\x7d"] = u :: rest
      ∧ (if u.isSep "," then rest else u :: rest) = vs ++ [.sep "\x7d"]
      ∧ vs.all (!·.isBrace) = true ∧ enumeratorsIn false us = enumeratorsIn false vs := by
  cases us with
  | nil => exact ⟨_, [], [], rfl, rfl, rfl, rfl⟩
  | cons u us =>
    have hall := hus
    rw [List.all_cons, Bool.and_eq_true] at hus
    refine ⟨u, us ++ [.sep "\x7d"], if u.isSep "," then us else u :: us, rfl, ?_, ?_, ?_⟩
    · split <;> rfl
    · split
      · exact hus.2
      · exact hall
    · split
      · next hcomma => exact enumeratorsIn_other (Token.isName_of_isSep hcomma) us
      · rfl

/-- The first enumerator of a body, and the tokens from which the others are read. -/
theorem exists_firstEnumerator {t : Token} {ts : List Token} (ht : t.isName = true)
    (hts : ts.all (!·.isBrace) = true) :
    ∃ e u us vs, t = .word e.name ∧ e.isWhole = true ∧ ts ++ [.sep "\x7d"] = e.rest ++ u :: us
      ∧ e.endsAt u = true ∧ (if u.isSep "," then us else u :: us) = vs ++ [.sep "\x7d"]
      ∧ vs.all (!·.isBrace) = true
      ∧ enumeratorsIn false (t :: ts) = e :: enumeratorsIn false vs := by
  have hword : t = .word t.text := by
    obtain ⟨cls, text⟩ := t
    rw [Token.isName, beq_iff_eq] at ht
    exact congrArg (Token.mk · text) ht
  cases hassigned : ts.head?.bind assigned? with
  | none =>
    obtain ⟨u, us, vs, hus, hvs, hall, hrest⟩ := exists_afterEnumerator hts
    refine ⟨⟨t.text, none⟩, u, us, vs, hword, rfl, hus, ?_, hvs, hall, ?_⟩
    · show (assigned? u).isNone = true
      cases ts with
      | nil => rw [← (List.cons.inj hus).1]; rfl
      | cons v ts => rw [← (List.cons.inj hus).1]; exact Option.isNone_iff_eq_none.mpr hassigned
    · rw [enumeratorsIn, if_pos ht, hassigned, ← hrest]
  | some fused =>
    obtain ⟨w, ts, rfl⟩ : ∃ w ws, ts = w :: ws := by
      cases ts with
      | nil => cases hassigned
      | cons w ws => exact ⟨w, ws, rfl⟩
    obtain rfl : w = ⟨.operator, "=" ++ fused⟩ := assigned?_eq_some_iff.mp hassigned
    rw [List.all_cons, Bool.and_eq_true] at hts
    -- The value goes on to the next comma, or else to the closing brace.
    have hsplit := List.takeWhile_append_dropWhile (p := fun t => !t.isSep ",") (l := ts)
    have hvalue : (ts.takeWhile (!·.isSep ",")).all (!·.isBrace) = true
        ∧ (ts.dropWhile (!·.isSep ",")).all (!·.isBrace) = true := by
      rw [← Bool.and_eq_true, ← List.all_append, hsplit]
      exact hts.2
    obtain ⟨u, us, vs, hus, hvs, hall, hrest⟩ := exists_afterEnumerator hvalue.2
    refine ⟨⟨t.text, some ⟨fused, ts.takeWhile (!·.isSep ",")⟩⟩, u, us, vs, hword, ?_, ?_, ?_, hvs,
      hall, ?_⟩
    · refine List.all_eq_true.mpr fun x hx => ?_
      have hcomma := List.mem_takeWhile_imp hx
      have hbrace := List.all_eq_true.mp hvalue.1 x hx
      rw [Bool.not_eq_true'] at hcomma hbrace
      rw [Token.isBrace, Bool.or_eq_false_iff] at hbrace
      rw [Token.endsValue, hcomma, hbrace.2]
      rfl
    · rw [WrittenEnumerator.rest, List.cons_append, List.cons_append, ← hus, ← List.append_assoc,
        hsplit]
    · show u.endsValue = true
      cases hdrop : ts.dropWhile (!·.isSep ",") with
      | nil =>
        rw [hdrop] at hus
        rw [← (List.cons.inj hus).1]
        rfl
      | cons x xs =>
        have hcomma := List.head?_dropWhile_not (fun t : Token => !t.isSep ",") ts
        rw [hdrop] at hus hcomma
        have hx : x.isSep "," = true := by simpa using hcomma
        rw [← (List.cons.inj hus).1, Token.endsValue, hx]
        rfl
    · rw [enumeratorsIn, if_pos ht, hassigned, List.tail_cons, enumeratorsIn_true, ← hrest]
      rfl

/-! ## Reading a body -/

/-- The name, the value and the number of an enumerator. -/
def Enumerator.core (e : Enumerator) : String × String × Option Int := (e.name, e.value, e.numeric)

/-- The same of a counted one. -/
def CountedEnumerator.core (c : CountedEnumerator) : String × String × Option Int :=
  (c.name, c.value, c.numeric)

/-- The same of the enumerators so far. -/
def EnumProgress.cores (p : EnumProgress) : List (String × String × Option Int) :=
  (p.settled ++ p.open?.toList).map Enumerator.core

/-- Descriptions do not matter to it. -/
theorem EnumProgress.map_core_described (comment : Option String) (p : EnumProgress) :
    (p.described comment).map Enumerator.core = p.cores := by
  rw [described, cores, List.map_append, List.map_append]
  cases p.open? <;> rfl

variable {σ : Type} [Feed σ] [LawfulFeed σ] {env : ScanEnv} {P : TokenStream σ → Prop}
  {s : Scanner σ} {t : Token} {d y : Cell} {cs ds ws ys : List Cell} {p : EnumProgress}

namespace Reader

/-- One enumerator is read and counted. The reader is then after the comma, if there is one. -/
theorem exists_again {e : WrittenEnumerator} (commentsLead : Bool) (he : e.isWhole = true)
    (hws : ws.map Cell.token = e.rest) (hd : e.endsAt d.token = true) (hp : Fits p.previous)
    (h : s.Before env P (.word e.name) (ws ++ d :: ds))
    (hds : (if d.token.isSep "," then ds else d :: ds) = y :: ys) :
    ∃ q s', (enumRound commentsLead p).run (Routine.run env) env s = .ok (.again q) s'
      ∧ q.cores = p.cores ++ [(e.counted p.previous).core]
      ∧ q.previous = (e.counted p.previous).numeric ∧ s'.Before env P y.token ys
      ∧ s'.findings = s.findings
      ∧ s'.lost = s.lost ++ CountedEnumerator.messages [e.counted p.previous] := by
  obtain ⟨u, hrun, hu⟩ := exists_enumRound commentsLead he hws hd hp h
  have hfindings : u.findings = s.findings := hu.findings.trans (s.findings_settled p)
  have hlost : u.lost = s.lost ++ CountedEnumerator.messages [e.counted p.previous] := by
    rw [hu.lost, Scanner.lost_settled]
  have hcores : (p.described s.comment ++ [(e.counted p.previous).enumerator s.stream.line]).map
      Enumerator.core = p.cores ++ [(e.counted p.previous).core] := by
    rw [List.map_append, EnumProgress.map_core_described]
    rfl
  cases hcomma : d.token.isSep "," with
  | false =>
    rw [hcomma, if_neg Bool.false_ne_true] at hds
    obtain ⟨rfl, rfl⟩ := List.cons.inj hds
    exact ⟨_, u, hrun.trans (run_endEnumerator_other hu.before.current hcomma ..), hcores, rfl,
      hu.before, hfindings, hlost⟩
  | true =>
    rw [hcomma, if_pos rfl] at hds
    subst hds
    have hcurrent : u.current = some (.sep ",") :=
      hu.before.current.trans (congrArg some (Token.isSep_iff.mp hcomma))
    have hend := hrun.trans (run_endEnumerator_comma hcurrent rfl commentsLead _)
    cases commentsLead with
    | true =>
      have hnext := hu.before.forget.advance
      refine ⟨_, _, hend, ?_, rfl, hnext.before, hnext.findings.trans hfindings, ?_⟩
      · rw [← hcores, EnumProgress.cores, List.map_append, List.map_append, List.map_append]
        exact List.append_nil _
      · exact (Scanner.lost_advance _).trans hlost
    | false =>
      have hnext := hu.before.advance
      exact ⟨_, _, hend, hcores, rfl, hnext.before, hnext.findings.trans hfindings,
        (Scanner.lost_advance _).trans hlost⟩

/-- From here on the enumerators in the tokens `ts` are read and counted, and then the reader is
after the closing brace. -/
def CountsIn (env : ScanEnv) (P : TokenStream σ → Prop) (commentsLead : Bool) (p : EnumProgress)
    (ts : List Token) (y : Cell) (ys : List Cell) (s : Scanner σ) : Prop :=
  ∃ q s', (loop (enumRound commentsLead) p).run (Routine.run env) env s = .ok q s'
    ∧ q.settled.map Enumerator.core
      = p.cores ++ (WrittenEnumerator.countAll p.previous (enumeratorsIn false ts)).map
          CountedEnumerator.core
    ∧ s'.Before env P y.token ys ∧ s'.findings = s.findings
    ∧ s'.lost = s.lost ++ CountedEnumerator.messages
        (WrittenEnumerator.countAll p.previous (enumeratorsIn false ts))

namespace CountsIn

variable {commentsLead : Bool} {ts : List Token}

/-- The closing brace. -/
theorem close (h : s.Before env P (.sep "\x7d") (y :: ys)) :
    CountsIn env P commentsLead p [] y ys s := by
  have hend := (h.settled p).advance
  refine ⟨_, _, Scanner.iterate_done (run_enumRound_close h.current commentsLead p), ?_,
    hend.before, hend.findings.trans (s.findings_settled p), ?_⟩
  · exact (p.map_core_described s.comment).trans (List.append_nil _).symm
  · rw [Scanner.lost_advance, Scanner.lost_settled]
    exact (List.append_nil _).symm

/-- A token that is passed over. -/
theorem pass (h : s.Before env P t (d :: ds)) (hbrace : t.isBrace = false)
    (hname : t.isName = false) (hrest : CountsIn env P commentsLead p ts y ys (s.advance env)) :
    CountsIn env P commentsLead p (t :: ts) y ys s := by
  obtain ⟨q, s', hrun, hq, hs', hfindings, hlost⟩ := hrest
  rw [Token.isBrace, Bool.or_eq_false_iff] at hbrace
  rw [CountsIn, enumeratorsIn_other hname]
  refine ⟨q, s', ?_, hq, hs', hfindings.trans h.advance.findings, ?_⟩
  · exact ((progresses_enumRound commentsLead).run_loop
      (run_enumRound_other h.current hbrace.1 hbrace.2 hname commentsLead p)).trans hrun
  · rw [hlost, Scanner.lost_advance]

/-- An enumerator. -/
theorem name {e : WrittenEnumerator} {us vs : List Token} {f : Cell} {fs : List Cell}
    (he : e.isWhole = true) (hws : ws.map Cell.token = e.rest) (hd : e.endsAt d.token = true)
    (hp : Fits p.previous) (h : s.Before env P (.word e.name) (ws ++ d :: ds))
    (hds : (if d.token.isSep "," then ds else d :: ds) = f :: fs)
    (hus : enumeratorsIn false us = e :: enumeratorsIn false vs)
    (hrest : ∀ (q : EnumProgress) (s' : Scanner σ), Fits q.previous → s'.Before env P f.token fs →
      CountsIn env P commentsLead q vs y ys s') :
    CountsIn env P commentsLead p us y ys s := by
  obtain ⟨q, s', hrun, hcores, hprevious, hs', hfindings, hlost⟩ :=
    exists_again commentsLead he hws hd hp h hds
  obtain ⟨q', s'', hrun', hcores', hs'', hfindings', hlost'⟩ :=
    hrest q s' (hprevious ▸ hp.counted e) hs'
  rw [CountsIn, hus, WrittenEnumerator.countAll]
  refine ⟨q', s'', ((progresses_enumRound commentsLead).run_loop hrun).trans hrun', ?_, hs'',
    hfindings'.trans hfindings, ?_⟩
  · rw [hcores', hcores, hprevious, List.map_cons, List.append_assoc]
    rfl
  · rw [hlost', hlost, hprevious, CountedEnumerator.messages_cons _ (WrittenEnumerator.countAll ..),
      List.append_assoc]

end CountsIn

/-- Cells of which the last one is a closing brace. -/
theorem exists_cons_of_map {r : List Cell} {vs : List Token}
    (hr : r.map Cell.token = vs ++ [.sep "\x7d"]) :
    ∃ f fs, r = f :: fs ∧ f.token :: fs.map Cell.token = vs ++ [.sep "\x7d"] := by
  cases r with
  | nil => simp at hr
  | cons f fs => exact ⟨f, fs, rfl, hr⟩

/-- All enumerators of a body without braces are read and counted. -/
theorem countsIn (commentsLead : Bool) {ts : List Token} (hts : ts.all (!·.isBrace) = true)
    (hp : Fits p.previous) (hcs : t :: cs.map Cell.token = ts ++ [.sep "\x7d"])
    (h : s.Before env P t (cs ++ y :: ys)) : CountsIn env P commentsLead p ts y ys s := by
  -- An enumerator may take several tokens, so the induction is on their number.
  induction hn : ts.length using Nat.strongRecOn generalizing ts t cs s p with
  | ind n ih =>
    cases ts with
    | nil =>
      obtain ⟨rfl, hnil⟩ := List.cons.inj hcs
      obtain rfl := List.map_eq_nil_iff.mp hnil
      exact .close h
    | cons v ts =>
      obtain ⟨rfl, htail⟩ := List.cons.inj hcs
      change cs.map Cell.token = ts ++ [.sep "\x7d"] at htail
      rw [List.all_cons, Bool.and_eq_true, Bool.not_eq_true'] at hts
      cases hname : t.isName with
      | false =>
        obtain ⟨c, cs, rfl, hcs'⟩ := exists_cons_of_map htail
        exact .pass h hts.1 hname (ih ts.length (hn ▸ Nat.lt_succ_self _) hts.2 hp hcs'
          h.advance.before rfl)
      | true =>
        obtain ⟨e, u, us, vs, rfl, he, hus, hu, hvs, hall, hrest⟩ :=
          exists_firstEnumerator hname hts.2
        rw [hus] at htail
        obtain ⟨ws, r, rfl, hws, hr⟩ := List.map_eq_append_iff.mp htail
        obtain ⟨d, ds, rfl, rfl, rfl⟩ := List.map_eq_cons_iff.mp hr
        have hr : (if d.token.isSep "," then ds else d :: ds).map Cell.token
            = vs ++ [.sep "\x7d"] := by
          rw [← hvs]
          split <;> rfl
        obtain ⟨f, fs, hf, hfs⟩ := exists_cons_of_map hr
        have hds : (if d.token.isSep "," then ds ++ y :: ys else d :: (ds ++ y :: ys))
            = f :: (fs ++ y :: ys) := by
          rw [show f :: (fs ++ y :: ys) = (f :: fs) ++ y :: ys from rfl, ← hf]
          split <;> rfl
        have hlength : vs.length < n := by
          have hlength' := congrArg List.length hus
          have hafter := congrArg List.length hvs
          rw [← hn]
          split at hafter <;> simp at hlength' hafter ⊢ <;> omega
        rw [List.append_assoc, List.cons_append] at h
        exact .name he hws hu hp h hds hrest
          fun q s' hq hs' => ih vs.length hlength hall hq hfs hs' rfl

/-- What is between the braces is read as the enumerators in it, counted from zero. -/
theorem enumerates_tokens {body : List Cell} {ts : List Token} (hbody : body.map Cell.token = ts)
    (hd : d.token = .sep "\x7d") (hts : ts.all (!·.isBrace) = true) :
    Enumerates σ env (body ++ [d])
      (fun es : List Enumerator =>
        es.map Enumerator.core = (countedIn ts).map CountedEnumerator.core)
      (CountedEnumerator.messages (countedIn ts)) := by
  intro P c cs y ys g s hcells h _
  have hcs : c.token :: cs.map Cell.token = ts ++ [.sep "\x7d"] := by
    rw [← List.map_cons, ← hcells, List.map_append, hbody, List.map_singleton, hd]
  obtain ⟨q, s', hrun, hrest⟩ := countsIn (p := {}) s.comment.isSome hts Fits.start hcs h
  exact ⟨q.settled, s', run_readEnumerators hrun, hrest⟩

end Reader

/-! ## What is recorded -/

/-- A file with an enumeration is read to its end. The enumerators are counted as they stand in
it. -/
theorem EnumFrame.exists_counted {opts : ScanOptions} {file : String} {feed : σ} {F : EnumFrame}
    {cells : List Cell} {ts : List Token} (hF : F.isLegal (opts.env file) = true)
    (hts : ts.all (!·.isBrace) = true)
    (hcells : Cell.spell opts.settings.grammar cells (F.around ts) = true)
    (h : TokenStream.Supplies ⟨feed, none⟩ (Cell.tokens cells)) :
    ∃ (es : List Enumerator) (g : List String) (C : Catalog),
      es.map Enumerator.core = (countedIn ts).map CountedEnumerator.core
      ∧ (Catalog.ofFeed opts file feed).result = .ok C
      ∧ (∀ name, C.get? .enumerator name
        = (Catalog.sightings .enumerators name
            (es.map (Enumerator.finding (opts.env file) g F.name))).foldl Catalog.see none)
      ∧ (Catalog.ofFeed opts file feed).journal.messages .enumValue
        = CountedEnumerator.messages (countedIn ts) := by
  simp only [Cell.spell, Bool.and_eq_true, beq_iff_eq] at hcells
  obtain ⟨⟨⟨htokens, hlegal⟩, hquiet⟩, -⟩ := hcells
  obtain ⟨before, body, z, after, rfl, hbefore, hbody, hz, hafter⟩ := F.exists_body htokens
  exact F.exists_catalog hF hbefore hafter (List.append_ne_nil_of_right_ne_nil _ (by simp))
    (enumerates_tokens hbody hz hts) hlegal hquiet h

/-! ## Lists of enumerators -/

namespace WrittenEnumerator

/-- The tokens of several enumerators, set apart by commas. There may be a last comma. -/
def listed (es : List WrittenEnumerator) (trailing : Bool) : List Token :=
  [.sep ","].intercalate (es.map tokens) ++ if trailing then [.sep ","] else []

/-- The enumerator as it is read: its value ends at a comma. -/
def cut (e : WrittenEnumerator) : WrittenEnumerator :=
  { e with value := e.value.map fun v => { v with tokens := v.tokens.takeWhile (!·.isSep ",") } }

/-- What is read as enumerators after a comma in its value. -/
def strays (e : WrittenEnumerator) : List WrittenEnumerator :=
  match e.value with
  | some v => enumeratorsIn true v.tokens
  | none => []

/-- Does its value lack these tokens? -/
def lacks (p : Token → Bool) (e : WrittenEnumerator) : Bool :=
  e.value.all fun v => v.tokens.all (!p ·)

theorem enumeratorsIn_tokens (e : WrittenEnumerator) :
    enumeratorsIn false e.tokens = e.cut :: e.strays := by
  obtain ⟨name, value⟩ := e
  cases value with
  | none => rfl
  | some v =>
    have hassigned : (rest ⟨name, some v⟩).head?.bind assigned? = some v.fused :=
      assigned?_eq_some_iff.mpr rfl
    have hname : Token.isName (.word name) = true := rfl
    rw [tokens, enumeratorsIn, if_pos hname, hassigned]
    rfl

/-- The enumerators of a list are read one after the other. -/
theorem enumeratorsIn_listed (es : List WrittenEnumerator) (trailing : Bool) :
    enumeratorsIn false (listed es trailing) = es.flatMap fun e => e.cut :: e.strays := by
  have hlist : ∀ es : List WrittenEnumerator,
      enumeratorsIn false ([.sep ","].intercalate (es.map tokens))
        = es.flatMap fun e => e.cut :: e.strays := by
    intro es
    induction es with
    | nil => rfl
    | cons e es ih =>
      cases es with
      | nil => simp [enumeratorsIn_tokens]
      | cons e' es =>
        rw [List.map_cons, List.map_cons, List.intercalate_cons_cons, List.append_assoc,
          List.singleton_append, enumeratorsIn_append, enumeratorsIn_tokens, ← List.map_cons, ih]
        rfl
  rw [listed]
  cases trailing with
  | false => rw [if_neg Bool.false_ne_true, List.append_nil, hlist]
  | true =>
    rw [if_pos rfl, enumeratorsIn_append, hlist]
    exact List.append_nil _

/-- There are no braces in a list if there are none in its values. -/
theorem all_listed {es : List WrittenEnumerator} (hes : es.all (lacks Token.isBrace) = true)
    (trailing : Bool) : (listed es trailing).all (!·.isBrace) = true := by
  have htokens : ∀ e : WrittenEnumerator, e.lacks Token.isBrace = true →
      e.tokens.all (!·.isBrace) = true := by
    rintro ⟨name, value⟩ he
    cases value with
    | none => rfl
    | some v => exact he
  have hlist : ([.sep ","].intercalate (es.map tokens)).all (!·.isBrace) = true := by
    induction es with
    | nil => rfl
    | cons e es ih =>
      rw [List.all_cons, Bool.and_eq_true] at hes
      cases es with
      | nil => simpa using htokens e hes.1
      | cons e' es =>
        rw [List.map_cons, List.map_cons, List.intercalate_cons_cons, List.all_append,
          List.all_append, htokens e hes.1, ← List.map_cons, ih hes.2]
        rfl
  rw [listed, List.all_append, hlist]
  cases trailing <;> rfl

/-- A value without a comma is read to the end. -/
theorem cut_of_lacks {e : WrittenEnumerator} (he : e.lacks (Token.isSep ",") = true) :
    e.cut = e ∧ e.strays = [] := by
  obtain ⟨name, value⟩ := e
  cases value with
  | none => exact ⟨rfl, rfl⟩
  | some v =>
    have hall : ∀ t ∈ v.tokens, (!t.isSep ",") = true := List.all_eq_true.mp he
    constructor
    · rw [cut, Option.map_some, List.takeWhile_eq_self_iff.mpr hall]
    · exact (enumeratorsIn_true v.tokens).trans
        (congrArg (enumeratorsIn false) (List.dropWhile_eq_nil_iff.mpr hall))

/-- Where no value has a comma, the enumerators are read as they are written. -/
theorem enumeratorsIn_listed_of_lacks {es : List WrittenEnumerator}
    (hes : es.all (lacks (Token.isSep ",")) = true) (trailing : Bool) :
    enumeratorsIn false (listed es trailing) = es := by
  rw [enumeratorsIn_listed]
  induction es with
  | nil => rfl
  | cons e es ih =>
    rw [List.all_cons, Bool.and_eq_true] at hes
    obtain ⟨hcut, hstrays⟩ := cut_of_lacks hes.1
    rw [List.flatMap_cons, hcut, hstrays, ih hes.2]
    rfl

end WrittenEnumerator

open WrittenEnumerator

variable {o : ScanOptions} {file : String} {feed : σ} {F : EnumFrame} {cells : List Cell}
  {es : List WrittenEnumerator} {trailing : Bool}

/-- The value and the number that are recorded of an enumerator. -/
def Detail.count? : Detail → Option (String × Option Int)
  | .enumerator v => some (v.value, v.numeric)
  | _ => none

/-- **Enumerators are counted from the one before them** unless they have a value of their own.
This is what is recorded of each, and there is one warning for each that cannot be counted. -/
theorem counted_of_enumeration (hF : F.isLegal (o.env file) = true)
    (hbraces : es.all (lacks Token.isBrace) = true)
    (hcommas : es.all (lacks (Token.isSep ",")) = true)
    (hnodup : (es.map WrittenEnumerator.name).Nodup)
    (hadmits : ∀ name ∈ es.map WrittenEnumerator.name, Catalog.admits name = true)
    (hcells : Cell.spell o.settings.grammar cells (F.around (listed es trailing)) = true)
    (h : TokenStream.Supplies ⟨feed, none⟩ (Cell.tokens cells)) :
    ∃ C, (Catalog.ofFeed o file feed).result = .ok C
      ∧ (∀ name, (C.get? .enumerator name).map (fun e => e.detail.bind Detail.count?)
        = ((countAll (some (-1)) es).find? (·.name = name)).map fun c => some (c.value, c.numeric))
      ∧ (Catalog.ofFeed o file feed).journal.messages .enumValue
        = CountedEnumerator.messages (countAll (some (-1)) es) := by
  obtain ⟨ks, g, C, hcores, hC, hentries, hmessages⟩ :=
    F.exists_counted hF (all_listed hbraces trailing) hcells h
  rw [countedIn, enumeratorsIn_listed_of_lacks hcommas] at hcores hmessages
  have hnames := map_name_countAll (some (-1)) es
  rw [← hnames] at hnodup hadmits
  exact ⟨C, hC, Catalog.get?_enumerator Detail.count? (fun e => (e.value, e.numeric))
    (fun _ => rfl) hcores hnodup hadmits hentries, hmessages⟩

/-- Enumerators with a value that takes its sign from the operator, with the last number but one
and with a value that cannot be worked out, each with others after it. -/
def mixedEnumerators : List WrittenEnumerator := [
  ⟨"A", none⟩, ⟨"B", some ⟨"-", [.word "5U"]⟩⟩, ⟨"C", none⟩,
  ⟨"D", some ⟨"", [.word "9223372036854775806"]⟩⟩, ⟨"E", none⟩, ⟨"F", none⟩, ⟨"G", none⟩,
  ⟨"H", some ⟨"", [.word "1", ⟨.operator, "<<"⟩, .word "4"]⟩⟩, ⟨"I", none⟩,
  ⟨"J", some ⟨"", [.word "sizeof", .sep "(", .word "int", .sep ")"]⟩⟩, ⟨"K", none⟩]

/-- What they count for. -/
def mixedCounts : List CountedEnumerator := [
  ⟨"A", "0", some 0, false⟩, ⟨"B", "-5", some (-5), false⟩, ⟨"C", "-4", some (-4), false⟩,
  ⟨"D", "9223372036854775806", some 9223372036854775806, false⟩,
  ⟨"E", "9223372036854775807", some 9223372036854775807, false⟩, ⟨"F", "", none, true⟩,
  ⟨"G", "", none, true⟩, ⟨"H", "1<<4", some 16, false⟩, ⟨"I", "17", some 17, false⟩,
  ⟨"J", "sizeof(int)", none, false⟩, ⟨"K", "", none, true⟩]

/-- They are counted as far as there are numbers. -/
theorem counted_of_mixedEnumerators :
    ∃ C, (Catalog.ofFeed {} "a.h" (EnumFrame.around ⟨false, none, none⟩
          (listed mixedEnumerators true))).result = .ok C
      ∧ (∀ name, (C.get? .enumerator name).map (fun e => e.detail.bind Detail.count?)
        = (mixedCounts.find? (·.name = name)).map fun c => some (c.value, c.numeric))
      ∧ (Catalog.ofFeed {} "a.h" (EnumFrame.around ⟨false, none, none⟩
          (listed mixedEnumerators true))).journal.messages .enumValue
        = ["Failed to compute value of enum F", "Failed to compute value of enum G",
            "Failed to compute value of enum K"] := by
  have hcounts : mixedCounts = countAll (some (-1)) mixedEnumerators := by decide +kernel
  have hmessages : ["Failed to compute value of enum F", "Failed to compute value of enum G",
      "Failed to compute value of enum K"]
        = CountedEnumerator.messages (countAll (some (-1)) mixedEnumerators) := by decide +kernel
  rw [hcounts, hmessages]
  have hframe : EnumFrame.isLegal (ScanOptions.env {} "a.h") ⟨false, none, none⟩ = true := by
    decide +kernel
  have hcells : Cell.spell (ScanOptions.settings {}).grammar
      ((EnumFrame.around ⟨false, none, none⟩ (listed mixedEnumerators true)).map Cell.bare)
      (EnumFrame.around ⟨false, none, none⟩ (listed mixedEnumerators true)) = true := by
    decide +kernel
  refine counted_of_enumeration hframe (by decide +kernel) (by decide +kernel) (by decide +kernel)
    (by decide +kernel) hcells ?_
  rw [Cell.tokens_bare]
  exact TokenStream.supplies_list _

/-! ## Names in values -/

/-- The names in the table are the ones that are read, as far as they are admitted. -/
theorem Catalog.isSome_enumerator {C : Catalog} {es : List Enumerator} {env : ScanEnv}
    {g : List String} {enumType : Option String}
    (h : ∀ name, C.get? .enumerator name = (Catalog.sightings .enumerators name
      (es.map (Enumerator.finding env g enumType))).foldl Catalog.see none) (name : String) :
    (C.get? .enumerator name).isSome = true
      ↔ Catalog.admits name = true ∧ name ∈ es.map Enumerator.name := by
  have hof : ∀ f ∈ Catalog.sightings .enumerators name (es.map (Enumerator.finding env g enumType)),
      f.isOf .enumerators name = true := fun f hf => (List.mem_filter.mp hf).2
  rw [h]
  by_cases hadmits : Catalog.admits name = true
  · rw [Catalog.isSome_foldl_see hadmits hof]
    simp [hadmits, Catalog.sightings, Catalog.Finding.isOf, Enumerator.finding, Category.shelf]
  · rw [Catalog.foldl_see_eq_none hadmits hof]
    simp [hadmits]

/-- The names that are read are those of the enumerators and those after commas in their values. -/
theorem mem_names_listed {ks : List Enumerator}
    (h : ks.map Enumerator.core = (countedIn (listed es trailing)).map CountedEnumerator.core)
    (name : String) :
    name ∈ ks.map Enumerator.name
      ↔ ∃ e ∈ es, name = e.name ∨ name ∈ e.strays.map WrittenEnumerator.name := by
  have hnames : ks.map Enumerator.name
      = (enumeratorsIn false (listed es trailing)).map WrittenEnumerator.name :=
    (map_fst_of_map_eq h).trans (map_name_countAll ..)
  rw [hnames, enumeratorsIn_listed, List.map_flatMap, List.mem_flatMap]
  simp [cut]

/-- **What is recorded as enumerators**, given any list without braces in its values: their names,
and besides them names that come after a comma in a value, as far as they are admitted. So it is
their own names exactly if there are no other ones after such a comma. -/
theorem enumerators_of_body (hF : F.isLegal (o.env file) = true)
    (hbraces : es.all (lacks Token.isBrace) = true)
    (hcells : Cell.spell o.settings.grammar cells (F.around (listed es trailing)) = true)
    (h : TokenStream.Supplies ⟨feed, none⟩ (Cell.tokens cells)) :
    ∃ C, (Catalog.ofFeed o file feed).result = .ok C
      ∧ (∀ name, (C.get? .enumerator name).isSome = true
        ↔ Catalog.admits name = true
          ∧ ∃ e ∈ es, name = e.name ∨ name ∈ e.strays.map WrittenEnumerator.name)
      ∧ ((∀ name, (C.get? .enumerator name).isSome = true
          ↔ Catalog.admits name = true ∧ name ∈ es.map WrittenEnumerator.name)
        ↔ ∀ e ∈ es, ∀ x ∈ e.strays, Catalog.admits x.name = true →
            x.name ∈ es.map WrittenEnumerator.name) := by
  obtain ⟨ks, g, C, hcores, hC, hentries, -⟩ :=
    F.exists_counted hF (all_listed hbraces trailing) hcells h
  have hnames := fun name => (Catalog.isSome_enumerator hentries name).trans
    (and_congr_right' (mem_names_listed hcores name))
  refine ⟨C, hC, hnames, ?_⟩
  constructor
  · intro hown e he x hx hadmits
    exact ((hown x.name).mp ((hnames x.name).mpr
      ⟨hadmits, e, he, .inr (List.mem_map_of_mem hx)⟩)).2
  · intro hstrays name
    rw [hnames, List.mem_map]
    refine and_congr_right fun hadmits => ⟨?_, ?_⟩
    · rintro ⟨e, he, rfl | hname⟩
      · exact ⟨e, he, rfl⟩
      · obtain ⟨x, hx, rfl⟩ := List.mem_map.mp hname
        exact List.mem_map.mp (hstrays e he x hx hadmits)
    · rintro ⟨e, he, rfl⟩
      exact ⟨e, he, .inl rfl⟩

/-- An enumerator whose value is a call with two arguments. -/
def callInValue : List WrittenEnumerator := [
  ⟨"A", some ⟨"", [.word "F", .sep "(", .word "1", .sep ",", .word "B", .sep ")"]⟩⟩]

/-- Two names are recorded. -/
theorem enumerators_of_callInValue :
    ∃ C, (Catalog.ofFeed {} "a.h" (EnumFrame.around ⟨false, none, none⟩
          (listed callInValue false))).result = .ok C
      ∧ ∀ name, (C.get? .enumerator name).isSome = true
        ↔ Catalog.admits name = true ∧ (name = "A" ∨ name = "B") := by
  have hframe : EnumFrame.isLegal (ScanOptions.env {} "a.h") ⟨false, none, none⟩ = true := by
    decide +kernel
  have hcells : Cell.spell (ScanOptions.settings {}).grammar
      ((EnumFrame.around ⟨false, none, none⟩ (listed callInValue false)).map Cell.bare)
      (EnumFrame.around ⟨false, none, none⟩ (listed callInValue false)) = true := by
    decide +kernel
  have hstrays : strays ⟨"A", some ⟨"", [.word "F", .sep "(", .word "1", .sep ",", .word "B",
      .sep ")"]⟩⟩ = [⟨"B", none⟩] := by decide +kernel
  obtain ⟨C, hC, hnames, -⟩ := enumerators_of_body hframe (by decide +kernel) hcells
    (by rw [Cell.tokens_bare]; exact TokenStream.supplies_list _)
  refine ⟨C, hC, fun name => (hnames name).trans (and_congr_right' ?_)⟩
  simp [callInValue, hstrays, @eq_comm _ "B"]

/-- There is one enumerator, and there are no braces in its value. But the second argument of the
call is recorded as another one. -/
theorem recorded_of_callInValue :
    callInValue.map WrittenEnumerator.name = ["A"]
      ∧ callInValue.all (lacks Token.isBrace) = true
      ∧ (listed callInValue false).all Settings.builtin.grammar.passes = true
      ∧ (Catalog.ofFeed {} "a.h" (EnumFrame.around ⟨false, none, none⟩
            (listed callInValue false))).result.toOption.map (fun C => (C.table .enumerators).names)
        = some ["A", "B"] := by
  decide +kernel

end HeaderAtlas
