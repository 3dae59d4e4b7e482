import Mathlib.Data.List.Induction
import UnitCheck.Proofs.Run.Bracket

/-! # Nested bindings

A session binds ids, puts back what was in force before, logs and checks. If each reset is that of the
innermost binding that is still open, then the open bindings decide which id is in force: the innermost
one that bound an id does, or else what was in force before them all. A token holds the id in force outside
its binding, and it is unused as long as the binding is open. -/

namespace UnitCheck.Run

open Markup (Limit)
open Context

/-- A binding that was made: its token, and the id that was in force before it. -/
structure Binding where
  token : Option Token
  before : Option String

/-- A step of a session. A binding is undone by its number. -/
inductive Step where
  | bind (id : Option String)
  | reset (number : Nat)
  | log (message : String) (extra : List (String × Json))
  | check (fresh : String) (limit : Limit) (d : Draft)

/-- Where a session is, the bindings that it made and the lines that it logged. -/
structure Session where
  context : Context
  bindings : List Binding
  lines : List Log.Line

namespace Context

theorem Sound.reset {c c' : Context} {token : Option Token} (h : c.Sound) (ht : ∀ t ∈ token, t.serial < c.issued)
    (hr : c.reset token = .ok c') : c'.Sound ∧ c'.issued = c.issued := by
  cases token with
  | none =>
    cases hr
    exact ⟨h, rfl⟩
  | some t =>
    unfold Context.reset at hr
    dsimp only at hr
    split at hr
    · cases hr
    · cases hr
      refine ⟨fun n hn => ?_, rfl⟩
      rcases List.mem_cons.mp hn with rfl | hn
      · exact ht t rfl
      · exact h n hn

theorem issued_le_bind (c : Context) (id : Option String) : c.issued ≤ (c.bind id).2.issued := by
  cases id with
  | none => exact Nat.le_refl _
  | some id => exact Nat.le_succ _

theorem serial_lt_bind {c : Context} {id : Option String} {t : Token} (h : t ∈ (c.bind id).1) :
    t.serial < (c.bind id).2.issued := by
  cases id with
  | none => cases h
  | some id =>
    cases h
    exact Nat.lt_succ_self _

end Context

namespace Session

def start : Session := ⟨.initial, [], []⟩

/-- The token of a binding, if it has one. -/
def token? (s : Session) (number : Nat) : Option Token := s.bindings[number]?.bind (·.token)

def step (s : Session) : Step → Except ResetError Session
  | .bind id =>
    .ok { s with
      context := (s.context.bind id).2
      bindings := s.bindings ++ [⟨(s.context.bind id).1, s.context.current⟩] }
  | .reset number =>
    (s.context.reset (s.token? number)).map fun context => { s with context }
  | .log message extra => .ok { s with lines := s.lines ++ [s.context.event message extra] }
  | .check fresh limit d =>
    let outcome := checkDraft s.context fresh limit d
    .ok { s with context := outcome.context, lines := s.lines ++ outcome.events }

/-- The session behind a step. One that fails changes nothing. -/
def after (s : Session) (x : Step) : Session :=
  match s.step x with
  | .ok t => t
  | .error _ => s

def run (s : Session) (steps : List Step) : Session := steps.foldl after s

variable {s t : Session}

theorem run_concat (s : Session) (steps : List Step) (x : Step) : s.run (steps ++ [x]) = (s.run steps).after x := by
  rw [run, run, List.foldl_append]
  rfl

theorem after_of_ok {x : Step} (h : s.step x = .ok t) : s.after x = t := by
  rw [after, h]

theorem step_reset_ok {number : Nat} {c : Context} (h : s.context.reset (s.token? number) = .ok c) :
    s.step (.reset number) = .ok { s with context := c } := by
  rw [step, h]
  rfl

theorem after_reset (s : Session) (number : Nat) : s.after (.reset number) = s ∨
    ∃ c, s.context.reset (s.token? number) = .ok c ∧ s.after (.reset number) = { s with context := c } := by
  rcases ok_or_error (s.context.reset (s.token? number)) with ⟨c, hc⟩ | ⟨e, he⟩
  · exact Or.inr ⟨c, hc, after_of_ok (step_reset_ok hc)⟩
  · left
    rw [after, step, he]
    rfl

/-- Every step but a binding leaves the list of bindings as it is. -/
theorem bindings_after {x : Step} (h : ∀ id, x ≠ .bind id) : (s.after x).bindings = s.bindings := by
  cases x with
  | bind id => exact absurd rfl (h id)
  | log message extra => rfl
  | check fresh limit d => rfl
  | reset number =>
    rcases after_reset s number with hs | ⟨c, -, hs⟩
    · rw [hs]
    · rw [hs]

theorem context_after_check (h : s.context.Sound) (fresh : String) (limit : Limit) (d : Draft) :
    (s.after (.check fresh limit d)).context = s.context.touched :=
  congrArg Prod.snd (around_eq h fresh (d.check limit))

/-! ### Tokens -/

/-- Only tokens that were given are kept or have been used. -/
structure Sound (s : Session) : Prop where
  context : s.context.Sound
  tokens : ∀ b ∈ s.bindings, ∀ t ∈ b.token, t.serial < s.context.issued

theorem sound_start : start.Sound := ⟨sound_initial, nofun⟩

theorem Sound.token (h : s.Sound) {number : Nat} : ∀ t ∈ s.token? number, t.serial < s.context.issued := by
  intro t ht
  obtain ⟨b, hb, hbt⟩ := Option.bind_eq_some_iff.mp ht
  exact h.tokens b (List.mem_of_getElem? hb) t hbt

theorem Sound.after (h : s.Sound) (x : Step) : (s.after x).Sound := by
  cases x with
  | log message extra => exact ⟨h.context, h.tokens⟩
  | check fresh limit d =>
    have hcontext := context_after_check h.context fresh limit d
    refine ⟨hcontext ▸ h.context.touched, fun b hb t ht => ?_⟩
    rw [hcontext]
    exact Nat.lt_succ_of_lt (h.tokens b hb t ht)
  | reset number =>
    rcases after_reset s number with hs | ⟨c, hc, hs⟩
    · rw [hs]
      exact h
    · rw [hs]
      obtain ⟨hsound, hissued⟩ := h.context.reset h.token hc
      refine ⟨hsound, fun b hb t ht => ?_⟩
      rw [hissued]
      exact h.tokens b hb t ht
  | bind id =>
    refine ⟨h.context.bind id, fun b hb t ht => ?_⟩
    rcases List.mem_append.mp hb with hb | hb
    · exact Nat.lt_of_lt_of_le (h.tokens b hb t ht) (issued_le_bind s.context id)
    · obtain rfl := List.mem_singleton.mp hb
      exact serial_lt_bind ht

theorem Sound.run (h : s.Sound) (steps : List Step) : (s.run steps).Sound := by
  induction steps generalizing s with
  | nil => exact h
  | cons x steps ih => exact ih (h.after x)

end Session

/-! ### Open bindings -/

/-- An open binding: its number, and what it bound. -/
structure Frame where
  number : Nat
  id : Option String

/-- The bindings that are open behind some steps, the innermost first, if each reset on the way is that of the innermost
    one that is open there. The session has made so many bindings before, and `frames` are open. -/
def opened (made : Nat) (frames : List Frame) : List Step → Option (List Frame)
  | [] => some frames
  | .bind id :: rest => opened (made + 1) (⟨made, id⟩ :: frames) rest
  | .reset number :: rest =>
    match frames with
    | [] => none
    | f :: outer => if f.number = number then opened made outer rest else none
  | .log _ _ :: rest => opened made frames rest
  | .check _ _ _ :: rest => opened made frames rest

/-- Resets are properly nested in the steps of a session that has made so many bindings before. -/
def Nested (made : Nat) (steps : List Step) : Prop := (opened made [] steps).isSome

/-- The id that open bindings put in force: one of no id leaves that outside it. -/
def inForce (ambient : Option String) : List Frame → Option String
  | [] => ambient
  | f :: outer => f.id.or (inForce ambient outer)

/-- Each open binding would put back the id in force outside it, by a token that is unused and was given after those of
    the bindings around it. -/
inductive Stacked (s : Session) (ambient : Option String) (first : Nat) : Nat → List Frame → Prop where
  | nil {bound : Nat} : Stacked s ambient first bound []
  | idle {bound number : Nat} {outer : List Frame} (made : first ≤ number)
      (binding : s.bindings[number]? = some ⟨none, inForce ambient outer⟩)
      (rest : Stacked s ambient first bound outer) : Stacked s ambient first bound (⟨number, none⟩ :: outer)
  | bound {bound number serial : Nat} {id : String} {outer : List Frame} (made : first ≤ number)
      (given : serial < bound) (unused : serial ∉ s.context.spent)
      (binding : s.bindings[number]? = some ⟨some ⟨serial, inForce ambient outer⟩, inForce ambient outer⟩)
      (rest : Stacked s ambient first serial outer) : Stacked s ambient first bound (⟨number, some id⟩ :: outer)

theorem binding_kept {bs bs' : List Binding} {n : Nat} {b : Binding} (h : bs <+: bs') (hb : bs[n]? = some b) :
    bs'[n]? = some b := by
  obtain ⟨more, rfl⟩ := h
  rw [List.getElem?_append_left (List.getElem?_eq_some_iff.mp hb).1, hb]

theorem Stacked.mono {s t : Session} {ambient : Option String} {first bound bound' : Nat} {frames : List Frame}
    (h : Stacked s ambient first bound frames) (hb : bound ≤ bound')
    (hbindings : s.bindings <+: t.bindings)
    (hspent : ∀ n < bound, n ∉ s.context.spent → n ∉ t.context.spent) : Stacked t ambient first bound' frames := by
  induction h generalizing bound' with
  | nil => exact .nil
  | idle made binding _ ih => exact .idle made (binding_kept hbindings binding) (ih hb hspent)
  | bound made given unused binding _ ih =>
    refine .bound made (Nat.lt_of_lt_of_le given hb) (hspent _ given unused) (binding_kept hbindings binding) ?_
    exact ih (Nat.le_refl _) fun n hn => hspent n (Nat.lt_trans hn given)

/-- The id in force is the one that the open bindings put there, and their tokens put it back. -/
structure Scoped (s : Session) (ambient : Option String) (first : Nat) (frames : List Frame) : Prop where
  sound : s.Sound
  made : first ≤ s.bindings.length
  current : s.context.current = inForce ambient frames
  stacked : Stacked s ambient first s.context.issued frames

namespace Scoped

variable {s : Session} {ambient : Option String} {first : Nat} {frames outer : List Frame}

theorem bind (h : Scoped s ambient first frames) (id : Option String) :
    Scoped (s.after (.bind id)) ambient first (⟨s.bindings.length, id⟩ :: frames) := by
  have hbindings : s.bindings <+: (s.after (.bind id)).bindings := List.prefix_append _ _
  have hnew : (s.after (.bind id)).bindings[s.bindings.length]? =
      some ⟨(s.context.bind id).1, s.context.current⟩ := List.getElem?_concat_length
  have hmade : first ≤ (s.after (.bind id)).bindings.length := Nat.le_trans h.made hbindings.length_le
  cases id with
  | none =>
    have houter := h.stacked.mono (Nat.le_refl _) hbindings fun _ _ hn => hn
    refine ⟨h.sound.after _, hmade, h.current, .idle h.made ?_ houter⟩
    rw [hnew, h.current]
    rfl
  | some id =>
    have hfresh : s.context.issued ∉ s.context.spent := fun hmem => Nat.lt_irrefl _ (h.sound.context _ hmem)
    refine ⟨h.sound.after _, hmade, rfl, .bound h.made (Nat.lt_succ_self _) hfresh ?_ ?_⟩
    · rw [hnew, ← h.current]
      rfl
    · exact h.stacked.mono (Nat.le_refl _) hbindings fun _ _ hn => hn

theorem log (h : Scoped s ambient first frames) (message : String) (extra : List (String × Json)) :
    Scoped (s.after (.log message extra)) ambient first frames :=
  ⟨h.sound.after _, h.made, h.current, h.stacked.mono (Nat.le_refl _) List.prefix_rfl fun _ _ hn => hn⟩

theorem check (h : Scoped s ambient first frames) (fresh : String) (limit : Limit) (d : Draft) :
    Scoped (s.after (.check fresh limit d)) ambient first frames := by
  have hcontext := Session.context_after_check h.sound.context fresh limit d
  refine ⟨h.sound.after _, h.made, ?_, ?_⟩
  · rw [hcontext]
    exact h.current
  · rw [hcontext]
    refine h.stacked.mono (Nat.le_succ _) List.prefix_rfl fun n hn hunused => ?_
    rw [hcontext]
    exact List.mem_cons.not.mpr (not_or.mpr ⟨Nat.ne_of_lt hn, hunused⟩)

/-- The reset of the innermost binding puts back what was in force before it. -/
theorem reset {f : Frame} (h : Scoped s ambient first (f :: outer)) :
    ∃ b t, first ≤ f.number ∧ s.bindings[f.number]? = some b ∧ b.before = inForce ambient outer ∧
      s.step (.reset f.number) = .ok t ∧ Scoped t ambient first outer := by
  have hsound := h.sound.after (.reset f.number)
  obtain ⟨number, id⟩ := f
  cases h.stacked with
  | idle made binding rest =>
    have htoken : s.token? number = none := by
      rw [Session.token?, binding]
      rfl
    have hreset : s.context.reset (s.token? number) = .ok s.context := by
      rw [htoken]
      rfl
    exact ⟨_, s, made, binding, rfl, Session.step_reset_ok hreset, h.sound, h.made, h.current, rest⟩
  | @bound _ _ serial id _ made given unused binding rest =>
    have htoken : s.token? number = some ⟨serial, inForce ambient outer⟩ := by
      rw [Session.token?, binding]
      rfl
    have hreset : s.context.reset (s.token? number) =
        .ok { s.context with current := inForce ambient outer, spent := serial :: s.context.spent } := by
      rw [htoken]
      exact if_neg unused
    have hstep := Session.step_reset_ok hreset
    rw [Session.after_of_ok hstep] at hsound
    refine ⟨_, _, made, binding, rfl, hstep, hsound, h.made, rfl, ?_⟩
    refine rest.mono (Nat.le_of_lt given) List.prefix_rfl fun n hn hunused => ?_
    exact List.mem_cons.not.mpr (not_or.mpr ⟨Nat.ne_of_lt hn, hunused⟩)

/-- Behind a step of which it is known which bindings it leaves open, their tokens still put back what they should. -/
theorem step (h : Scoped s ambient first frames) {x : Step} {rest : List Step} {final : List Frame}
    (ho : opened s.bindings.length frames (x :: rest) = some final) :
    ∃ mid, Scoped (s.after x) ambient first mid ∧
      ∀ ys, opened s.bindings.length frames (x :: ys) = opened (s.after x).bindings.length mid ys := by
  cases x with
  | bind id =>
    have hlength : (s.after (.bind id)).bindings.length = s.bindings.length + 1 := List.length_append
    exact ⟨_, h.bind id, fun ys => by rw [opened, hlength]⟩
  | log message extra => exact ⟨frames, h.log message extra, fun _ => rfl⟩
  | check fresh limit d => exact ⟨frames, h.check fresh limit d, fun _ => rfl⟩
  | reset number =>
    cases frames with
    | nil => cases ho
    | cons f outer =>
      obtain ⟨rfl, -⟩ := Option.ite_none_right_eq_some.mp ho
      obtain ⟨b, t, -, -, -, hstep, hscoped⟩ := h.reset
      have hbindings : (s.after (.reset f.number)).bindings = s.bindings :=
        Session.bindings_after fun id he => by cases he
      refine ⟨outer, (Session.after_of_ok hstep).symm ▸ hscoped, fun ys => ?_⟩
      rw [hbindings]
      exact if_pos rfl

/-- If the open bindings are known behind some steps, they are known behind the first of these, and so is what is in
    force there. -/
theorem run (h : Scoped s ambient first frames) {front later : List Step} {final : List Frame}
    (ho : opened s.bindings.length frames (front ++ later) = some final) :
    ∃ mid, opened s.bindings.length frames front = some mid ∧ Scoped (s.run front) ambient first mid ∧
      opened (s.run front).bindings.length mid later = some final := by
  induction front generalizing s frames with
  | nil => exact ⟨frames, rfl, h, ho⟩
  | cons x front ih =>
    obtain ⟨next, hscoped, heq⟩ := h.step ho
    obtain ⟨mid, hmid, hrun, hlater⟩ := ih hscoped ((heq _).symm.trans ho)
    exact ⟨mid, (heq front).trans hmid, hrun, hlater⟩

end Scoped

/-- A session that starts here has no open bindings, whatever was bound before. -/
theorem Session.Sound.scoped {s : Session} (h : s.Sound) : Scoped s s.context.current s.bindings.length [] :=
  ⟨h, Nat.le_refl _, rfl, .nil⟩

/-- Every binding of a session was made by one of its steps. -/
theorem Session.exists_bind {s : Session} {front : List Step} {n : Nat} {b : Binding} (hn : s.bindings.length ≤ n)
    (h : (s.run front).bindings[n]? = some b) :
    ∃ earlier id inner, front = earlier ++ .bind id :: inner ∧ (s.run earlier).bindings.length = n ∧
      b.before = (s.run earlier).context.current := by
  induction front using List.reverseRecOn with
  | nil =>
    have hlt : n < s.bindings.length := (List.getElem?_eq_some_iff.mp h).1
    omega
  | append_singleton front x ih =>
    rw [run_concat] at h
    by_cases hx : ∃ id, x = .bind id
    · obtain ⟨id, rfl⟩ := hx
      have hbindings : ((s.run front).after (.bind id)).bindings =
          (s.run front).bindings ++ [⟨((s.run front).context.bind id).1, (s.run front).context.current⟩] := rfl
      rw [hbindings, List.getElem?_append] at h
      split at h
      · obtain ⟨earlier, id', inner, rfl, hlength, hbefore⟩ := ih h
        exact ⟨earlier, id', inner ++ [.bind id], by simp, hlength, hbefore⟩
      · rename_i hge
        obtain ⟨hlt, hb⟩ := List.getElem?_eq_some_iff.mp h
        rw [List.getElem_singleton] at hb
        subst hb
        rw [List.length_singleton] at hlt
        exact ⟨front, id, [], rfl, by omega, rfl⟩
    · rw [bindings_after fun id he => hx ⟨id, he⟩] at h
      obtain ⟨earlier, id, inner, rfl, hlength, hbefore⟩ := ih h
      exact ⟨earlier, id, inner ++ [x], by simp, hlength, hbefore⟩

section
variable {s : Session}

/-- A reset that is properly nested puts back what was in force before its binding. -/
theorem Session.Sound.reset_nested (h : s.Sound) {front later : List Step} {n : Nat}
    (hn : Nested s.bindings.length (front ++ .reset n :: later)) :
    ∃ earlier id inner t, front = earlier ++ .bind id :: inner ∧ (s.run earlier).bindings.length = n ∧
      (s.run front).step (.reset n) = .ok t ∧ t.context.current = (s.run earlier).context.current := by
  obtain ⟨final, hfinal⟩ := Option.isSome_iff_exists.mp hn
  obtain ⟨mid, -, hscoped, hrest⟩ := h.scoped.run hfinal
  cases mid with
  | nil => cases hrest
  | cons f outer =>
    obtain ⟨rfl, -⟩ := Option.ite_none_right_eq_some.mp hrest
    obtain ⟨b, t, hmade, hb, hbefore, hstep, ht⟩ := hscoped.reset
    obtain ⟨earlier, id, inner, hfront, hlength, hsame⟩ := exists_bind hmade hb
    exact ⟨earlier, id, inner, t, hfront, hlength, hstep, ht.current.trans (hbefore.symm.trans hsame)⟩

/-- A line bears the id that the open bindings put in force. -/
theorem Session.Sound.log_nested (h : s.Sound) {front later : List Step} {message : String}
    {extra : List (String × Json)} (hn : Nested s.bindings.length (front ++ .log message extra :: later))
    (hextra : "run_id" ∉ extra.map Prod.fst) :
    ∃ frames, opened s.bindings.length [] front = some frames ∧
      (s.run front).context.current = inForce s.context.current frames ∧
      ((s.run front).after (.log message extra)).lines =
        (s.run front).lines ++ [lineOf (inForce s.context.current frames) message extra] := by
  obtain ⟨final, hfinal⟩ := Option.isSome_iff_exists.mp hn
  obtain ⟨mid, hmid, hscoped, -⟩ := h.scoped.run hfinal
  refine ⟨mid, hmid, hscoped.current, ?_⟩
  rw [← hscoped.current, ← event_eq_lineOf _ _ hextra]
  rfl

end

/-- Run ids are scoped. Wherever a session has come to, a check leaves the id in force as it was, in failure too, and
    the line about its batch bears that id, or a fresh one if there is none in it. If resets are properly nested in what
    follows, each puts back the id that was in force before its binding, and each line that says nothing else under the
    name of the id bears the one that the open bindings put in force when it was written. -/
theorem runIds_scoped (before : List Step) :
    let s := Session.start.run before
    (∀ fresh limit d, Contained s.context fresh (checkDraft s.context fresh limit d).result
      (checkDraft s.context fresh limit d).events (checkDraft s.context fresh limit d).context) ∧
    (∀ fresh limit p, (∃ r, (checkProject s.context fresh limit p).result = .ok r) ∧
      Contained s.context fresh (checkProject s.context fresh limit p).result
        (checkProject s.context fresh limit p).events (checkProject s.context fresh limit p).context) ∧
    ∀ steps, Nested s.bindings.length steps →
      (∀ front n later, steps = front ++ .reset n :: later → ∃ earlier id inner t,
        front = earlier ++ .bind id :: inner ∧ (s.run earlier).bindings.length = n ∧
        (s.run front).step (.reset n) = .ok t ∧ t.context.current = (s.run earlier).context.current) ∧
      ∀ front message extra later, steps = front ++ .log message extra :: later → "run_id" ∉ extra.map Prod.fst →
        ∃ frames, opened s.bindings.length [] front = some frames ∧
          (s.run front).context.current = inForce s.context.current frames ∧
          ((s.run front).after (.log message extra)).lines =
            (s.run front).lines ++ [lineOf (inForce s.context.current frames) message extra] := by
  intro s
  have hs : s.Sound := Session.sound_start.run before
  refine ⟨contained_checkDraft hs.context, contained_checkProject hs.context, fun steps hn => ⟨?_, ?_⟩⟩
  · rintro front n later rfl
    exact hs.reset_nested hn
  · rintro front message extra later rfl hextra
    exact hs.log_nested hn hextra

/-- Two equations of one id, and a symbol whose unit is not known. -/
def repeatedId : Draft := ⟨[("x", "furlong")], [⟨"a", "x = x"⟩, ⟨"a", "x"⟩]⟩

/-- A binding of an empty id inside one of no id inside one of an id, with a check that fails. -/
def nestedSteps : List Step :=
  [.bind (some "outer"), .bind none, .check "fresh" .standard repeatedId, .bind (some ""), .log "seen" [("n", .null)],
   .reset 2, .reset 1, .reset 0]

theorem runIds_scoped_threeDeep :
    Nested (Session.start.run []).bindings.length nestedSteps ∧
      (∃ earlier id inner t, nestedSteps.take 5 = earlier ++ .bind id :: inner ∧
        (Session.start.run earlier).bindings.length = 2 ∧
        (Session.start.run (nestedSteps.take 5)).step (.reset 2) = .ok t ∧
        t.context.current = (Session.start.run earlier).context.current) ∧
      ∃ frames, opened 0 [] (nestedSteps.take 4) = some frames ∧ inForce none frames = some "" ∧
        ((Session.start.run (nestedSteps.take 4)).after (.log "seen" [("n", .null)])).lines =
          (Session.start.run (nestedSteps.take 4)).lines ++ [lineOf (some "") "seen" [("n", .null)]] := by
  have hn : Nested (Session.start.run []).bindings.length nestedSteps := rfl
  obtain ⟨-, -, hnested⟩ := runIds_scoped []
  obtain ⟨hreset, hlog⟩ := hnested nestedSteps hn
  obtain ⟨frames, hframes, -, hlines⟩ := hlog (nestedSteps.take 4) "seen" [("n", .null)] _ rfl (by decide)
  have hopen : opened 0 [] (nestedSteps.take 4) = some [⟨2, some ""⟩, ⟨1, none⟩, ⟨0, some "outer"⟩] := rfl
  cases hopen.symm.trans hframes
  exact ⟨hn, hreset (nestedSteps.take 5) 2 _ rfl, _, hopen, rfl, hlines⟩

end UnitCheck.Run
