import MkCompiler.Proofs.Transcripts

/-!
# Deliveries to the sections

The assembly routes appended pieces to sections, captures them while the output is held, and inserts
pieces at a mark. The sequence of operations alone determines which pieces are delivered to which
section, and in which order: `deliveries` reads it off, with nothing but the routing in mind. Main
result: each section consists of what it was, of the pieces inserted at the mark if the mark is in
it, and of the pieces delivered to it. It follows that a hold which changes no delivery can be left
out.
-/

namespace MkCompiler

open MkCompiler.Action

variable {α : Type}

def Routing.isHeld : Routing α → Bool
  | .direct _ => false
  | .held _ _ => true

namespace Assembly

/-- What can be done to an assembly of which a mark has been taken. -/
inductive Operation (α : Type) where
  | append (pieces : List α)
  | appendHeader (pieces : List α)
  | appendEntryDeclaration (pieces : List α)
  | select (target : Section)
  | hold
  /-- Ends the hold and appends what was captured. -/
  | release
  /-- Inserts pieces at the mark. -/
  | insert (pieces : List α)

def unmarked {β : Type} (x : Action (Assembly α) β) : Action (Assembly α × Mark) β :=
  zoom Prod.fst (fun a s => (a, s.2)) x

theorem unmarked_eq_ok {β : Type} {x : Action (Assembly α) β} {a : Assembly α} {m : Mark} {b : β}
    {t : Assembly α × Mark} :
    unmarked x (a, m) = .ok b t ↔ ∃ a', x a = .ok b a' ∧ t = (a', m) := by
  unfold unmarked zoom
  cases x a with
  | error e a' => simp
  | ok b' a' =>
    constructor
    · rintro ⟨⟩
      exact ⟨a', rfl, rfl⟩
    · rintro ⟨_, ⟨⟩, rfl⟩
      rfl

namespace Operation

def run : Operation α → Action (Assembly α × Mark) Unit
  | append pieces => unmarked (write pieces)
  | appendHeader pieces => unmarked (modify (·.appendTo .header pieces))
  | appendEntryDeclaration pieces => unmarked (modify (·.appendTo .entryDeclaration pieces))
  | select target => unmarked (modify (·.select target))
  | hold => unmarked Assembly.hold
  | release => unmarked (Assembly.release >>= write)
  | insert pieces => do
    let m ← unmarked (Assembly.insert (← get).2 pieces)
    modify fun s => (s.1, m)

/-- Whether the routing allows the operation. The output is held at most once, only what is held is
released, and nothing is delivered to a section that does not exist. -/
def allowed (r : Routing α) : Operation α → Bool
  | append _ => r.isHeld || r.target.isAssigned
  | hold => !r.isHeld
  | release => r.isHeld && r.target.isAssigned
  | _ => true

def reroute (r : Routing α) : Operation α → Routing α
  | append pieces => if r.isHeld then .held r.target (r.buffer ++ pieces) else r
  | select target => if r.isHeld then .held target r.buffer else .direct target
  | hold => .held r.target []
  | release => .direct r.target
  | _ => r

def delivery (r : Routing α) : Operation α → List (Section × List α)
  | append pieces => if r.isHeld then [] else [(r.target, pieces)]
  | appendHeader pieces => [(.header, pieces)]
  | appendEntryDeclaration pieces => [(.entryDeclaration, pieces)]
  | release => [(r.target, r.buffer)]
  | _ => []

def insertion : Operation α → List α
  | insert pieces => pieces
  | _ => []

/-- Whether the operation does the same to an output that is held for the sake of a section as to
one that goes straight to it, up to the time of delivery. -/
def indifferent (s : Section) : Operation α → Bool
  | append _ | insert _ => true
  | appendHeader _ => s ≠ .header
  | appendEntryDeclaration _ => s ≠ .entryDeclaration
  | _ => false

end Operation

/-! ## Sequences of operations -/

def runAll : List (Operation α) → Action (Assembly α × Mark) Unit
  | [] => pure ()
  | op :: ops => do
    op.run
    runAll ops

def rerouteAll (r : Routing α) (ops : List (Operation α)) : Routing α :=
  ops.foldl Operation.reroute r

def allowedAll (r : Routing α) : List (Operation α) → Bool
  | [] => true
  | op :: ops => op.allowed r && allowedAll (op.reroute r) ops

def deliveries (r : Routing α) : List (Operation α) → List (Section × List α)
  | [] => []
  | op :: ops => op.delivery r ++ deliveries (op.reroute r) ops

def insertions (ops : List (Operation α)) : List α :=
  ops.flatMap Operation.insertion

def deliveredTo (s : Section) (ds : List (Section × List α)) : List α :=
  ds.flatMap fun d => if d.1 = s then d.2 else []

section Sequences

variable {r : Routing α} {xs ys : List (Operation α)} {s : Section}

@[simp] theorem deliveredTo_append (ds es : List (Section × List α)) :
    deliveredTo s (ds ++ es) = deliveredTo s ds ++ deliveredTo s es :=
  List.flatMap_append

@[simp] theorem insertions_append : insertions (xs ++ ys) = insertions xs ++ insertions ys :=
  List.flatMap_append

@[simp] theorem rerouteAll_append :
    rerouteAll r (xs ++ ys) = rerouteAll (rerouteAll r xs) ys :=
  List.foldl_append

@[simp] theorem deliveries_append :
    deliveries r (xs ++ ys) = deliveries r xs ++ deliveries (rerouteAll r xs) ys := by
  induction xs generalizing r with
  | nil => rfl
  | cons op ops ih =>
    rw [List.cons_append, deliveries, ih, deliveries, List.append_assoc]
    rfl

@[simp] theorem allowedAll_append :
    allowedAll r (xs ++ ys) = (allowedAll r xs && allowedAll (rerouteAll r xs) ys) := by
  induction xs generalizing r with
  | nil => rfl
  | cons op ops ih =>
    rw [List.cons_append, allowedAll, ih, allowedAll, Bool.and_assoc]
    rfl

theorem runAll_cons_eq_ok {op : Operation α} {t t'' : Assembly α × Mark} :
    runAll (op :: xs) t = .ok () t'' ↔ ∃ t', op.run t = .ok () t' ∧ runAll xs t' = .ok () t'' := by
  rw [runAll, bind_eq_ok]
  constructor
  · rintro ⟨⟨⟩, h⟩
    exact h
  · intro h
    exact ⟨(), h⟩

theorem runAll_append_eq_ok {t t'' : Assembly α × Mark} :
    runAll (xs ++ ys) t = .ok () t'' ↔
      ∃ t', runAll xs t = .ok () t' ∧ runAll ys t' = .ok () t'' := by
  induction xs generalizing t with
  | nil =>
    constructor
    · intro h
      exact ⟨t, rfl, h⟩
    · rintro ⟨_, ⟨⟩, h⟩
      exact h
  | cons op ops ih =>
    simp only [List.cons_append, runAll_cons_eq_ok, ih]
    constructor
    · rintro ⟨t₁, hop, t₂, hops, hys⟩
      exact ⟨t₂, ⟨t₁, hop, hops⟩, hys⟩
    · rintro ⟨t₂, ⟨t₁, hop, hops⟩, hys⟩
      exact ⟨t₁, hop, t₂, hops, hys⟩

end Sequences

/-! ## What a sequence of operations leaves behind -/

variable {a a' : Assembly α} {m m' : Mark} {front back : List α} {op : Operation α}
  {ops : List (Operation α)}

/-- The mark lies between two parts of its section. -/
structure Splits (a : Assembly α) (m : Mark) (front back : List α) : Prop where
  isAssigned : m.target.isAssigned = true
  position : m.position = front.length
  content : a.content m.target = front ++ back

/-- What the operations leave behind if they start with the mark between `front` and `back`. -/
structure Outcome (a : Assembly α) (m : Mark) (front back : List α) (ops : List (Operation α))
    (a' : Assembly α) (m' : Mark) : Prop where
  prologue : a'.prologue = a.prologue
  routing : a'.routing = rerouteAll a.routing ops
  target : m'.target = m.target
  splits : a'.Splits m' (front ++ insertions ops)
    (back ++ deliveredTo m.target (deliveries a.routing ops))
  others : ∀ s, s ≠ m.target →
    a'.content s = a.content s ++ deliveredTo s (deliveries a.routing ops)

theorem content_appendTo {target : Section} (h : target.isAssigned = true) (pieces : List α)
    (s : Section) : (a.appendTo target pieces).content s =
      a.content s ++ deliveredTo s [(target, pieces)] := by
  rw [appendTo, content_setContent a h]
  by_cases hs : s = target
  · simp [hs, deliveredTo]
  · simp [hs, deliveredTo, Ne.symm hs]

theorem prologue_setContent (pieces : List α) (target : Section) :
    (a.setContent pieces target).prologue = a.prologue := by
  cases target <;> rfl

/-- An operation that inserts nothing lets the sections grow at their ends. -/
theorem Splits.outcome_of_grows (h : a.Splits m front back) (hinsertion : op.insertion = [])
    (hprologue : a'.prologue = a.prologue) (hrouting : a'.routing = op.reroute a.routing)
    (hcontent : ∀ s, a'.content s = a.content s ++ deliveredTo s (op.delivery a.routing)) :
    Outcome a m front back [op] a' m := by
  have hdeliveries : deliveries a.routing [op] = op.delivery a.routing := List.append_nil _
  have hinsertions : insertions [op] = [] := by simp [insertions, hinsertion]
  refine ⟨hprologue, hrouting, rfl, ⟨h.isAssigned, ?_, ?_⟩, fun s _ => ?_⟩
  · rw [hinsertions, List.append_nil, h.position]
  · rw [hinsertions, hdeliveries, hcontent, h.content, List.append_nil, List.append_assoc]
  · rw [hdeliveries, hcontent]

/-- An insertion moves what is behind the mark. -/
theorem Splits.insert_eq (h : a.Splits m front back) (pieces : List α) :
    Assembly.insert m pieces a = .ok ⟨m.target, (front ++ pieces).length⟩
      (a.setContent (front ++ pieces ++ back) m.target) := by
  have hlength : (a.content m.target).length = front.length + back.length := by simp [h.content]
  have hpast : ¬(((a.content m.target).length : Int) < m.position) := by
    rw [hlength, h.position]
    omega
  have hnonneg : ¬(m.position < 0) := by
    rw [h.position]
    omega
  have hparts : (a.content m.target).take m.position.toNat = front ∧
      (a.content m.target).drop m.position.toNat = back := by
    rw [h.content, h.position]
    simp
  refine bind_eq_ok.mpr ⟨a, a, rfl, ?_⟩
  rw [if_neg (by simp [h.isAssigned]), if_neg hpast, if_neg hnonneg, hparts.1, hparts.2,
    h.position, List.length_append, Int.natCast_add]
  rfl

theorem Splits.run_insert (h : a.Splits m front back) (pieces : List α) :
    ∃ a' m', (Operation.insert pieces).run (a, m) = .ok () (a', m') ∧
      Outcome a m front back [.insert pieces] a' m' := by
  refine ⟨a.setContent (front ++ pieces ++ back) m.target, ⟨m.target, (front ++ pieces).length⟩,
    ?_, ?_⟩
  · refine bind_eq_ok.mpr ⟨(a, m), (a, m), rfl, ?_⟩
    exact bind_eq_ok.mpr ⟨_, _, unmarked_eq_ok.mpr ⟨_, h.insert_eq pieces, rfl⟩, rfl⟩
  · have hinsertions : insertions [Operation.insert pieces] = pieces := by
      simp [insertions, Operation.insertion]
    refine ⟨prologue_setContent _ _, routing_setContent _ _ _, rfl, ⟨h.isAssigned, ?_, ?_⟩, ?_⟩
    · rw [hinsertions]
    · rw [content_setContent a h.isAssigned, if_pos rfl, hinsertions]
      simp [deliveries, Operation.delivery, deliveredTo]
    · intro s hs
      rw [content_setContent a h.isAssigned, if_neg hs]
      simp [deliveries, Operation.delivery, deliveredTo]

theorem write_eq_ok {pieces : List α} (h : (Operation.append pieces).allowed a.routing = true) :
    write pieces a = .ok () (a.append pieces) := by
  refine bind_eq_ok.mpr ⟨a, a, rfl, ?_⟩
  cases hrouting : a.routing with
  | held resume buffer => rfl
  | direct s =>
    rw [hrouting] at h
    cases s with
    | unassigned code => cases h
    | _ => rfl

theorem append_grows {pieces : List α} (h : (Operation.append pieces).allowed a.routing = true) :
    (a.append pieces).prologue = a.prologue ∧
      (a.append pieces).routing = (Operation.append pieces).reroute a.routing ∧
      ∀ s, (a.append pieces).content s =
        a.content s ++ deliveredTo s ((Operation.append pieces).delivery a.routing) := by
  unfold append
  cases hrouting : a.routing with
  | held resume buffer =>
    refine ⟨rfl, rfl, fun s => ?_⟩
    change _ = a.content s ++ []
    rw [List.append_nil]
    cases s <;> rfl
  | direct target =>
    rw [hrouting] at h
    exact ⟨prologue_setContent _ _, (routing_setContent _ _ _).trans hrouting, content_appendTo h _⟩

/-- An operation that the routing allows does what its deliveries and insertions say. -/
theorem Splits.run_step (h : a.Splits m front back) (hallowed : op.allowed a.routing = true) :
    ∃ a' m', op.run (a, m) = .ok () (a', m') ∧ Outcome a m front back [op] a' m' := by
  cases op with
  | append pieces =>
    obtain ⟨hprologue, hrouting, hcontent⟩ := append_grows hallowed
    exact ⟨_, m, unmarked_eq_ok.mpr ⟨_, write_eq_ok hallowed, rfl⟩,
      h.outcome_of_grows rfl hprologue hrouting hcontent⟩
  | appendHeader pieces =>
    exact ⟨_, m, rfl, h.outcome_of_grows rfl rfl rfl (content_appendTo rfl pieces)⟩
  | appendEntryDeclaration pieces =>
    exact ⟨_, m, rfl, h.outcome_of_grows rfl rfl rfl (content_appendTo rfl pieces)⟩
  | select target =>
    refine ⟨a.select target, m, rfl, ?_⟩
    unfold select
    cases hrouting : a.routing <;> refine h.outcome_of_grows rfl rfl ?_ fun s => ?_
    any_goals rw [hrouting]; rfl
    all_goals cases s <;> exact (List.append_nil _).symm
  | hold =>
    cases hrouting : a.routing with
    | held resume buffer =>
      rw [hrouting] at hallowed
      cases hallowed
    | direct target =>
      have hrun : Assembly.hold a = .ok () { a with routing := .held target [] } := by
        refine bind_eq_ok.mpr ⟨a, a, rfl, ?_⟩
        rw [hrouting]
        rfl
      refine ⟨_, m, unmarked_eq_ok.mpr ⟨_, hrun, rfl⟩, h.outcome_of_grows rfl rfl ?_ fun s => ?_⟩
      · rw [hrouting]
        rfl
      · cases s <;> exact (List.append_nil _).symm
  | release =>
    cases hrouting : a.routing with
    | direct target =>
      rw [hrouting] at hallowed
      cases hallowed
    | held resume buffer =>
      rw [hrouting] at hallowed
      have hwritable : (Operation.append buffer).allowed
          ({ a with routing := .direct resume } : Assembly α).routing = true := hallowed
      have hrun : (Assembly.release >>= write) a =
          .ok () (({ a with routing := .direct resume } : Assembly α).append buffer) := by
        refine bind_eq_ok.mpr ⟨buffer, _, ?_, write_eq_ok hwritable⟩
        refine bind_eq_ok.mpr ⟨a, a, rfl, ?_⟩
        rw [hrouting]
        rfl
      obtain ⟨hprologue, hrouted, hcontent⟩ := append_grows hwritable
      refine ⟨_, m, unmarked_eq_ok.mpr ⟨_, hrun, rfl⟩,
        h.outcome_of_grows rfl hprologue ?_ fun s => ?_⟩
      · rw [hrouted, hrouting]
        rfl
      · rw [hcontent, hrouting]
        cases s <;> rfl
  | insert pieces => exact h.run_insert pieces

/-- What the routing does not allow fails. -/
theorem allowed_of_run {t : Assembly α × Mark} (h : op.run (a, m) = .ok () t) :
    op.allowed a.routing = true := by
  cases op with
  | append pieces =>
    obtain ⟨a', hrun, -⟩ := unmarked_eq_ok.mp h
    obtain ⟨_, _, ⟨⟩, hwrite⟩ := bind_eq_ok.mp hrun
    cases hrouting : a.routing with
    | held resume buffer => rfl
    | direct target =>
      rw [hrouting] at hwrite
      cases target with
      | unassigned code => cases hwrite
      | _ => rfl
  | hold =>
    obtain ⟨a', hrun, -⟩ := unmarked_eq_ok.mp h
    obtain ⟨_, _, ⟨⟩, hhold⟩ := bind_eq_ok.mp hrun
    cases hrouting : a.routing with
    | direct target => rfl
    | held resume buffer =>
      rw [hrouting] at hhold
      cases hhold
  | release =>
    obtain ⟨a', hrun, -⟩ := unmarked_eq_ok.mp h
    obtain ⟨buffer, a₁, hrelease, hwrite⟩ := bind_eq_ok.mp hrun
    obtain ⟨_, _, ⟨⟩, hreleased⟩ := bind_eq_ok.mp hrelease
    cases hrouting : a.routing with
    | direct target =>
      rw [hrouting] at hreleased
      cases hreleased
    | held resume captured =>
      rw [hrouting] at hreleased
      cases hreleased
      cases resume with
      | unassigned code => cases hwrite
      | _ => rfl
  | _ => rfl

theorem Outcome.trans {a₁ a₂ : Assembly α} {m₁ m₂ : Mark} {xs ys : List (Operation α)}
    (hxs : Outcome a m front back xs a₁ m₁)
    (hys : Outcome a₁ m₁ (front ++ insertions xs)
      (back ++ deliveredTo m.target (deliveries a.routing xs)) ys a₂ m₂) :
    Outcome a m front back (xs ++ ys) a₂ m₂ := by
  have hrouting := hxs.routing
  refine ⟨hys.prologue.trans hxs.prologue, ?_, hys.target.trans hxs.target, ?_, ?_⟩
  · rw [hys.routing, hrouting, rerouteAll_append]
  · rw [insertions_append, deliveries_append, deliveredTo_append, ← List.append_assoc,
      ← List.append_assoc, ← hrouting, ← hxs.target]
    have hsplits := hys.splits
    rw [hxs.target] at hsplits ⊢
    exact hsplits
  · intro s hs
    rw [hys.others s (hxs.target ▸ hs), hxs.others s hs, hrouting, deliveries_append,
      deliveredTo_append, List.append_assoc]

/-- Operations that the routing allows, one after the other, do what their deliveries and insertions
say. -/
theorem Splits.runAll (h : a.Splits m front back) (hallowed : allowedAll a.routing ops = true) :
    ∃ a' m', runAll ops (a, m) = .ok () (a', m') ∧ Outcome a m front back ops a' m' := by
  induction ops generalizing a m front back with
  | nil =>
    refine ⟨a, m, rfl, rfl, rfl, rfl, ?_, fun s _ => (List.append_nil _).symm⟩
    simpa [insertions, deliveries, deliveredTo] using h
  | cons op ops ih =>
    obtain ⟨hop, hops⟩ := Bool.and_eq_true_iff.mp hallowed
    obtain ⟨a₁, m₁, hrun₁, hstep⟩ := h.run_step hop
    have hops₁ : allowedAll a₁.routing ops = true := by
      rw [hstep.routing]
      exact hops
    obtain ⟨a', m', hrun, hrest⟩ := ih hstep.splits hops₁
    exact ⟨a', m', runAll_cons_eq_ok.mpr ⟨_, hrun₁, hrun⟩, hstep.trans hrest⟩

theorem Splits.runAll_eq_ok_iff (h : a.Splits m front back) :
    (∃ t, Assembly.runAll ops (a, m) = .ok () t) ↔ allowedAll a.routing ops = true := by
  constructor
  · rintro ⟨t, hrun⟩
    induction ops generalizing a m front back with
    | nil => rfl
    | cons op ops ih =>
      obtain ⟨⟨a₁, m₁⟩, hrun₁, hrest⟩ := runAll_cons_eq_ok.mp hrun
      have hop := allowed_of_run hrun₁
      obtain ⟨a₂, m₂, hrun₂, hstep⟩ := h.run_step hop
      obtain ⟨rfl, rfl⟩ : a₁ = a₂ ∧ m₁ = m₂ := by
        rw [hrun₁] at hrun₂
        cases hrun₂
        exact ⟨rfl, rfl⟩
      have hops := ih hstep.splits hrest
      rw [hstep.routing] at hops
      exact Bool.and_eq_true_iff.mpr ⟨hop, hops⟩
  · intro hallowed
    obtain ⟨a', m', hrun, -⟩ := h.runAll hallowed
    exact ⟨_, hrun⟩

/-- Deliveries, insertions and routing say all about what is left behind. -/
theorem Outcome.eq {a₁ a₂ : Assembly α} {m₁ m₂ : Mark} {xs ys : List (Operation α)}
    (hxs : Outcome a m front back xs a₁ m₁) (hys : Outcome a m front back ys a₂ m₂)
    (hroute : rerouteAll a.routing xs = rerouteAll a.routing ys)
    (hinsert : insertions xs = insertions ys)
    (hdeliver : ∀ s, deliveredTo s (deliveries a.routing xs) =
      deliveredTo s (deliveries a.routing ys)) : (a₁, m₁) = (a₂, m₂) := by
  have hmark : m₁ = m₂ := by
    have hposition := hxs.splits.position.trans (hinsert ▸ hys.splits.position.symm)
    have htarget := hxs.target.trans hys.target.symm
    cases m₁
    cases m₂
    simp_all
  have hcontent (s : Section) : a₁.content s = a₂.content s := by
    by_cases hs : s = m.target
    · have h₁ := hxs.splits.content
      have h₂ := hys.splits.content
      rw [hxs.target] at h₁
      rw [hys.target] at h₂
      rw [hs, h₁, h₂, hinsert, hdeliver]
    · rw [hxs.others s hs, hys.others s hs, hdeliver]
  have hprologue := hxs.prologue.trans hys.prologue.symm
  have hrouting := hxs.routing.trans (hroute.trans hys.routing.symm)
  have hassembly : a₁ = a₂ := by
    have hheader := hcontent .header
    have hdeclaration := hcontent .entryDeclaration
    have hbody := hcontent .entryBody
    have hfunctions := hcontent .functions
    cases a₁
    cases a₂
    simp_all [content]
  rw [hmark, hassembly]

/-! ## Holds that change nothing -/

section Indifferent

variable {s : Section}

/-- What is captured from an indifferent operation is what it would have delivered. -/
theorem Operation.reroute_of_indifferent (h : op.indifferent s = true) (buffer : List α) :
    op.reroute (.direct s) = .direct s ∧
      op.reroute (.held s buffer) = .held s (buffer ++ deliveredTo s (op.delivery (.direct s))) ∧
      ∀ t, deliveredTo t (op.delivery (.held s buffer)) =
        if t = s then [] else deliveredTo t (op.delivery (.direct s)) := by
  cases op with
  | append pieces =>
    refine ⟨rfl, by simp [reroute, delivery, deliveredTo, Routing.isHeld, Routing.target,
      Routing.buffer], fun t => ?_⟩
    by_cases ht : t = s
    · simp [ht, delivery, Routing.isHeld, deliveredTo]
    · simp [ht, Ne.symm ht, delivery, Routing.isHeld, Routing.target, deliveredTo]
  | appendHeader pieces =>
    have hs : s ≠ .header := of_decide_eq_true h
    refine ⟨rfl, by simp [reroute, delivery, deliveredTo, hs.symm], fun t => ?_⟩
    by_cases ht : t = s
    · simp [ht, delivery, deliveredTo, hs.symm]
    · simp [ht, delivery]
  | appendEntryDeclaration pieces =>
    have hs : s ≠ .entryDeclaration := of_decide_eq_true h
    refine ⟨rfl, by simp [reroute, delivery, deliveredTo, hs.symm], fun t => ?_⟩
    by_cases ht : t = s
    · simp [ht, delivery, deliveredTo, hs.symm]
    · simp [ht, delivery]
  | insert pieces => exact ⟨rfl, by simp [reroute, delivery, deliveredTo], by
      simp [delivery, deliveredTo]⟩
  | select _ | hold | release => cases h

variable {inner : List (Operation α)}

theorem rerouteAll_of_indifferent (h : ∀ op ∈ inner, op.indifferent s = true) (buffer : List α) :
    rerouteAll (.direct s) inner = .direct s ∧
      rerouteAll (.held s buffer) inner =
        .held s (buffer ++ deliveredTo s (deliveries (.direct s) inner)) ∧
      ∀ t, deliveredTo t (deliveries (.held s buffer) inner) =
        if t = s then [] else deliveredTo t (deliveries (.direct s) inner) := by
  induction inner generalizing buffer with
  | nil => simp [rerouteAll, deliveries, deliveredTo]
  | cons op ops ih =>
    obtain ⟨hop, hops⟩ := List.forall_mem_cons.mp h
    obtain ⟨hdirect, hheld, hdeliver⟩ := op.reroute_of_indifferent hop buffer
    obtain ⟨hdirect', hheld', hdeliver'⟩ := ih hops
      (buffer ++ deliveredTo s (op.delivery (.direct s)))
    refine ⟨?_, ?_, fun t => ?_⟩
    · rw [rerouteAll, List.foldl_cons, hdirect]
      exact hdirect'
    · rw [rerouteAll, List.foldl_cons, hheld, deliveries, hdirect, deliveredTo_append,
        ← List.append_assoc]
      exact hheld'
    · rw [deliveries, deliveries, hheld, hdirect, deliveredTo_append, deliveredTo_append, hdeliver,
        hdeliver']
      split <;> rfl

/-- The routing and all deliveries are the same with and without a hold around indifferent
operations. -/
theorem rerouteAll_hold (h : ∀ op ∈ inner, op.indifferent s = true) :
    rerouteAll (.direct s) (.hold :: (inner ++ [.release])) = rerouteAll (.direct s) inner ∧
      ∀ t, deliveredTo t (deliveries (.direct s) (.hold :: (inner ++ [.release]))) =
        deliveredTo t (deliveries (.direct s) inner) := by
  obtain ⟨hdirect, hheld, hdeliver⟩ := rerouteAll_of_indifferent h []
  have hopened : rerouteAll (.direct s) (.hold :: inner) =
      .held s (deliveredTo s (deliveries (.direct s) inner)) := hheld
  rw [← List.cons_append]
  refine ⟨?_, fun t => ?_⟩
  · rw [rerouteAll_append, hopened, hdirect]
    rfl
  · have hinner : deliveredTo t (deliveries (.direct s) (.hold :: inner)) =
        if t = s then [] else deliveredTo t (deliveries (.direct s) inner) := hdeliver t
    rw [deliveries_append, deliveredTo_append, hinner, hopened]
    by_cases ht : t = s
    · simp [ht, deliveries, Operation.delivery, deliveredTo, Routing.target, Routing.buffer]
    · simp [ht, Ne.symm ht, deliveries, Operation.delivery, deliveredTo, Routing.target]

theorem allowedAll_of_indifferent (h : ∀ op ∈ inner, op.indifferent s = true)
    (hs : s.isAssigned = true) : allowedAll (.direct s : Routing α) inner = true := by
  induction inner with
  | nil => rfl
  | cons op ops ih =>
    obtain ⟨hop, hops⟩ := List.forall_mem_cons.mp h
    rw [allowedAll, (op.reroute_of_indifferent hop []).1, ih hops, Bool.and_true]
    cases op with
    | append pieces => exact hs
    | appendHeader _ | appendEntryDeclaration _ | insert _ => rfl
    | select _ | hold | release => cases hop

/-- A hold around indifferent operations can be left out. -/
theorem Splits.runAll_without_hold (h : a.Splits m front back) {pre post : List (Operation α)}
    (hroute : rerouteAll a.routing pre = .direct s)
    (hinner : ∀ op ∈ inner, op.indifferent s = true) {t : Assembly α × Mark}
    (hrun : Assembly.runAll (pre ++ (.hold :: (inner ++ [.release])) ++ post) (a, m) = .ok () t) :
    Assembly.runAll (pre ++ inner ++ post) (a, m) = .ok () t := by
  obtain ⟨hroutes, hdeliveries⟩ := rerouteAll_hold hinner
  have hallowed := h.runAll_eq_ok_iff.mp ⟨t, hrun⟩
  have hallowed' : allowedAll a.routing (pre ++ inner ++ post) = true := by
    rw [← List.cons_append] at hallowed hroutes
    simp only [allowedAll_append, rerouteAll_append, Bool.and_eq_true, hroute] at hallowed ⊢
    rw [← hroutes, rerouteAll_append]
    refine ⟨⟨hallowed.1.1, allowedAll_of_indifferent hinner ?_⟩, hallowed.2⟩
    have hrelease := hallowed.1.2.2
    rw [show rerouteAll (.direct s) (.hold :: inner) =
      .held s _ from (rerouteAll_of_indifferent hinner []).2.1] at hrelease
    simpa [allowedAll, Operation.allowed, Routing.target, Routing.isHeld] using hrelease
  obtain ⟨a₁, m₁, hrun₁, houtcome₁⟩ := h.runAll hallowed
  obtain ⟨a₂, m₂, hrun₂, houtcome₂⟩ := h.runAll hallowed'
  obtain rfl : (a₁, m₁) = t := by
    rw [hrun₁] at hrun
    cases hrun
    rfl
  rw [hrun₂, houtcome₂.eq houtcome₁]
  · simp only [rerouteAll_append, hroute, hroutes]
  · simp [insertions, Operation.insertion]
  · intro t
    simp only [deliveries_append, deliveredTo_append, rerouteAll_append, hroute, hroutes,
      hdeliveries]

end Indifferent

/-! ## The laws -/

/-- What a sequence of operations does to an assembly and to a mark at the end of the section that
is selected in it. -/
structure Delivers (a : Assembly α) (m : Mark) (ops : List (Operation α)) (a' : Assembly α)
    (m' : Mark) : Prop where
  /-- The section of the mark has the insertions in front of all that is delivered to it. -/
  marked : a'.content m.target =
    a.content m.target ++ insertions ops ++ deliveredTo m.target (deliveries a.routing ops)
  /-- The mark is behind the insertions. -/
  mark : m' = ⟨m.target, (a.content m.target ++ insertions ops).length⟩
  others : ∀ s, s ≠ m.target →
    a'.content s = a.content s ++ deliveredTo s (deliveries a.routing ops)
  routing : a'.routing = rerouteAll a.routing ops
  /-- A hold around operations that are indifferent to it makes no difference. -/
  without_hold : ∀ pre inner post s, ops = pre ++ (.hold :: (inner ++ [.release])) ++ post →
    rerouteAll a.routing pre = .direct s → (∀ op ∈ inner, op.indifferent s = true) →
    runAll (pre ++ inner ++ post) (a, m) = .ok () (a', m')
  /-- The header and the declaration of the entry point grow at once, and nothing else changes. -/
  header : ∀ pre pieces post, ops = pre ++ .appendHeader pieces :: post →
    ∃ a₁ m₁, runAll pre (a, m) = .ok () (a₁, m₁) ∧
      runAll (pre ++ [.appendHeader pieces]) (a, m) =
        .ok () ({ a₁ with header := a₁.header ++ pieces }, m₁)
  entryDeclaration : ∀ pre pieces post, ops = pre ++ .appendEntryDeclaration pieces :: post →
    ∃ a₁ m₁, runAll pre (a, m) = .ok () (a₁, m₁) ∧
      runAll (pre ++ [.appendEntryDeclaration pieces]) (a, m) =
        .ok () ({ a₁ with entryDeclaration := a₁.entryDeclaration ++ pieces }, m₁)
  pieces : a'.pieces = a.prologue ++
    [.header, .entryDeclaration, .entryBody, .functions].flatMap a'.content

theorem splits_of_mark (h : Assembly.mark a = .ok m a) : a.Splits m (a.content m.target) [] := by
  have hmark : Ensures Assembly.mark a fun m' _ => a.Splits m' (a.content m'.target) [] :=
    ensures_mark.mpr fun t _ ht => ⟨ht, rfl, (List.append_nil _).symm⟩
  exact hmark m a h

/-- A run of operations returns exactly if the routing allows them all, and it delivers every piece
where it belongs. -/
theorem runAll_delivers (h : Assembly.mark a = .ok m a) (ops : List (Operation α)) :
    ((∃ t, runAll ops (a, m) = .ok () t) ↔ allowedAll a.routing ops = true) ∧
      ∀ a' m', runAll ops (a, m) = .ok () (a', m') → Delivers a m ops a' m' := by
  have hsplits := splits_of_mark h
  refine ⟨hsplits.runAll_eq_ok_iff, ?_⟩
  intro a' m' hrun
  obtain ⟨a₁, m₁, hrun₁, houtcome⟩ := hsplits.runAll (hsplits.runAll_eq_ok_iff.mp ⟨_, hrun⟩)
  obtain ⟨rfl, rfl⟩ : a₁ = a' ∧ m₁ = m' := by
    rw [hrun₁] at hrun
    cases hrun
    exact ⟨rfl, rfl⟩
  have hcontent := houtcome.splits.content
  rw [houtcome.target, List.nil_append] at hcontent
  -- An append to a fixed section follows what has been done before it, whatever that was.
  have hbefore {pre post : List (Operation α)} {op : Operation α} (hops : ops = pre ++ op :: post) :
      ∃ a₁ m₁, runAll pre (a, m) = .ok () (a₁, m₁) := by
    rw [hops] at hrun
    obtain ⟨⟨a₁, m₁⟩, hpre, -⟩ := runAll_append_eq_ok.mp hrun
    exact ⟨a₁, m₁, hpre⟩
  refine ⟨hcontent, ?_, houtcome.others, houtcome.routing, ?_, ?_, ?_, ?_⟩
  · have hposition := houtcome.splits.position
    have htarget := houtcome.target
    cases m₁
    simp_all
  · rintro pre inner post s rfl hroute hinner
    exact hsplits.runAll_without_hold hroute hinner hrun
  · intro pre pieces post hops
    obtain ⟨a₁, m₁, hpre⟩ := hbefore hops
    exact ⟨a₁, m₁, hpre, runAll_append_eq_ok.mpr ⟨_, hpre, rfl⟩⟩
  · intro pre pieces post hops
    obtain ⟨a₁, m₁, hpre⟩ := hbefore hops
    exact ⟨a₁, m₁, hpre, runAll_append_eq_ok.mpr ⟨_, hpre, rfl⟩⟩
  · simp [Assembly.pieces, content, houtcome.prologue]

/-- Insertions around a hold that makes no difference and one that does: the section selected in it
gets what was captured. -/
def sampleOperations : List (Operation Nat) :=
  [.append [1], .insert [2], .hold, .append [3], .appendHeader [4], .insert [5], .release, .hold,
    .append [6], .select .functions, .release, .insert [7]]

theorem runAll_delivers_sample :
    Assembly.mark (start [0] : Assembly Nat) = .ok ⟨.entryBody, 0⟩ (start [0]) ∧
      Delivers (start [0] : Assembly Nat) ⟨.entryBody, 0⟩ sampleOperations
        ⟨[0], [4], [], [2, 5, 7, 1, 3], [6], .direct .functions⟩ ⟨.entryBody, 3⟩ := by
  have hmark : Assembly.mark (start [0] : Assembly Nat) = .ok ⟨.entryBody, 0⟩ (start [0]) := rfl
  have hheld : runAll (sampleOperations.take 7) (start [0], ⟨.entryBody, 0⟩) =
      .ok () (⟨[0], [4], [], [2, 5, 1, 3], [], .direct .entryBody⟩, ⟨.entryBody, 2⟩) := rfl
  have hmoved : runAll (sampleOperations.drop 7)
      (⟨[0], [4], [], [2, 5, 1, 3], [], .direct .entryBody⟩, ⟨.entryBody, 2⟩) =
      .ok () (⟨[0], [4], [], [2, 5, 7, 1, 3], [6], .direct .functions⟩, ⟨.entryBody, 3⟩) := rfl
  have hrun := runAll_append_eq_ok.mpr ⟨_, hheld, hmoved⟩
  rw [List.take_append_drop] at hrun
  exact ⟨hmark, (runAll_delivers hmark sampleOperations).2 _ _ hrun⟩

end Assembly

end MkCompiler
