import Mathlib.Logic.Function.Basic
import TailscaleRust.Lib.Run

/-!
# Two parties that pair by one message each way

Either party may send an initiation, under a new index, and the other
answers it with a response under a new index of its own. The answerer holds
the link from then on; the initiator holds it when the response arrives,
provided it still waits for that response. A party keeps one link, so a new
one replaces the old, and it may resend an initiation or stop waiting at any
time. The network delivers in any order, either every message once or any
message any number of times. An index may be lost: a message that carries it
in its sender field is discarded by whoever gets it.

Two invariants. Under once-only delivery the parties agree whenever no
response is under way (`AgreeInv`), and under any delivery the answerer holds
the link of an initiator that has completed (`HeldInv`). Both are kept by
steps that meet a condition on the state before the step, `Orderly` and
`Undisturbed`; each rules out the moments at which one party gives up the
link the other relies on.
-/

namespace TailscaleRust.Lib.Pairing

/-! ## The system -/

inductive Side where
  | left
  | right
  deriving DecidableEq

def Side.other : Side → Side
  | .left => .right
  | .right => .left

@[simp] theorem Side.other_other (x : Side) : x.other.other = x := by
  cases x <;> rfl

@[simp] theorem Side.other_ne (x : Side) : x.other ≠ x := by
  cases x <;> decide

theorem Side.eq_or_other (x y : Side) : y = x ∨ y = x.other := by
  cases x <;> cases y <;> decide

/-- `init a` announces the initiator's index; `resp a b` names it and
announces the answerer's. -/
inductive Msg (ι : Type) where
  | init (a : ι)
  | resp (a b : ι)
  | other
  deriving DecidableEq

/-- A link as one end holds it: the end that initiated, or the one that
answered. `a` is the initiator's index, `b` the answerer's. -/
inductive Link (ι : Type) where
  | initiated (a b : ι)
  | answered (b a : ι)
  deriving DecidableEq

section System

variable {ι : Type}

/-- The index under which this end receives. -/
def Link.own : Link ι → ι
  | .initiated a _ => a
  | .answered b _ => b

/-- The index to which this end sends. -/
def Link.theirs : Link ι → ι
  | .initiated _ b => b
  | .answered _ a => a

/-- The other end of the link. -/
def Link.mirror : Link ι → Link ι
  | .initiated a b => .answered b a
  | .answered b a => .initiated a b

structure Node (ι : Type) where
  pend : Option ι
  link : Option (Link ι)

structure Pair (ι : Type) where
  node : Side → Node ι
  /-- Messages under way, each with its receiver. -/
  flight : List (Side × Msg ι)
  used : List ι

/-- What the network does with a message it delivers. -/
inductive Network where
  | once
  | duplicating

def Network.after {α : Type} : Network → Nat → List α → List α
  | .once, i, msgs => msgs.eraseIdx i
  | .duplicating, _, msgs => msgs

/-- How a party reacts to a message, drawing `fresh`. -/
inductive Receives (lost : ι → Prop) (fresh : ι) (n : Node ι) :
    Msg ι → Node ι → List (Msg ι) → Prop
  | ignore {m : Msg ι} {out : List (Msg ι)}
      (hmiss : ∀ a b, m = .resp a b → n.pend = some a → lost b)
      (hout : ∀ m ∈ out, m = .other) : Receives lost fresh n m n out
  | answer {a : ι} :
      Receives lost fresh n (.init a) { n with link := some (.answered fresh a) } [.resp a fresh]
  | complete {a b : ι} (hpend : n.pend = some a) :
      Receives lost fresh n (.resp a b) ⟨none, some (.initiated a b)⟩ [.other]
  | start (hpend : n.pend = none) (hlink : n.link = none) :
      Receives lost fresh n .other { n with pend := some fresh } [.init fresh]

/-- What a party does of its own accord. -/
inductive Ticks (n : Node ι) : Node ι → List (Msg ι) → Prop
  | keep {out : List (Msg ι)}
      (hout : ∀ m ∈ out, m = .other ∨ ∃ a, m = .init a ∧ n.pend = some a) : Ticks n n out
  | giveUp {out : List (Msg ι)} (hout : ∀ m ∈ out, m = .other) :
      Ticks n { n with pend := none } out

inductive Event (ι : Type) where
  | deliver (i : Nat) (fresh : ι)
  | tick (x : Side)

/-- The state after party `x` has moved to `n` and sent `out`. -/
def Pair.put (s : Pair ι) (x : Side) (n : Node ι) (kept : List (Side × Msg ι))
    (out : List (Msg ι)) (used : List ι) : Pair ι where
  node := Function.update s.node x n
  flight := kept ++ out.map fun m => (x.other, m)
  used := used

inductive Step (lost : ι → Prop) (net : Network) (s : Pair ι) : Event ι → Pair ι → Prop
  | deliver {i : Nat} {x : Side} {m : Msg ι} {fresh : ι} {n : Node ι} {out : List (Msg ι)}
      (hat : s.flight[i]? = some (x, m)) (hfresh : fresh ∉ s.used)
      (hrecv : Receives lost fresh (s.node x) m n out) :
      Step lost net s (.deliver i fresh)
        (s.put x n (net.after i s.flight) out (fresh :: s.used))
  | tick {x : Side} {n : Node ι} {out : List (Msg ι)} (htick : Ticks (s.node x) n out) :
      Step lost net s (.tick x) (s.put x n s.flight out s.used)

/-- Nobody has sent anything. -/
structure Start (s : Pair ι) : Prop where
  pend : ∀ x, (s.node x).pend = none
  link : ∀ x, (s.node x).link = none
  flight : s.flight = []
  used : s.used = []

namespace Start

variable {s : Pair ι} (h : Start s)

include h

theorem pend_ne {x : Side} {a : ι} : (s.node x).pend ≠ some a := by
  rw [h.pend]
  exact (Option.some_ne_none a).symm

theorem link_ne {x : Side} {l : Link ι} : (s.node x).link ≠ some l := by
  rw [h.link]
  exact (Option.some_ne_none l).symm

theorem not_mem_flight {p : Side × Msg ι} : p ∉ s.flight := by
  rw [h.flight]
  exact List.not_mem_nil

end Start

/-! ## Reading the state after a move -/

section Put

variable {s : Pair ι} {x : Side} {n : Node ι} {kept : List (Side × Msg ι)}
  {out : List (Msg ι)} {used : List ι}

@[simp] theorem node_put_self : (s.put x n kept out used).node x = n :=
  Function.update_self ..

@[simp] theorem node_put_other : (s.put x n kept out used).node x.other = s.node x.other :=
  Function.update_of_ne (Side.other_ne x) ..

/-- A move that keeps the mover's link keeps every link. -/
theorem link_put (h : n.link = (s.node x).link) (y : Side) :
    ((s.put x n kept out used).node y).link = (s.node y).link := by
  rcases Side.eq_or_other x y with rfl | rfl
  · rw [node_put_self, h]
  · rw [node_put_other]

theorem pend_put (h : n.pend = (s.node x).pend) (y : Side) :
    ((s.put x n kept out used).node y).pend = (s.node y).pend := by
  rcases Side.eq_or_other x y with rfl | rfl
  · rw [node_put_self, h]
  · rw [node_put_other]

/-- What a party waits on after a move: the mover what the move says, the
other what it did before. -/
theorem pend_of_put {y : Side} {a : ι}
    (h : ((s.put x n kept out used).node y).pend = some a) :
    (y = x ∧ n.pend = some a) ∨ (y = x.other ∧ (s.node y).pend = some a) := by
  rcases Side.eq_or_other x y with rfl | rfl
  · rw [node_put_self] at h
    exact .inl ⟨rfl, h⟩
  · rw [node_put_other] at h
    exact .inr ⟨rfl, h⟩

theorem link_of_put {y : Side} {l : Link ι}
    (h : ((s.put x n kept out used).node y).link = some l) :
    (y = x ∧ n.link = some l) ∨ (y = x.other ∧ (s.node y).link = some l) := by
  rcases Side.eq_or_other x y with rfl | rfl
  · rw [node_put_self] at h
    exact .inl ⟨rfl, h⟩
  · rw [node_put_other] at h
    exact .inr ⟨rfl, h⟩

theorem mem_flight_put {y : Side} {m : Msg ι} :
    (y, m) ∈ (s.put x n kept out used).flight ↔
      (y, m) ∈ kept ∨ (y = x.other ∧ m ∈ out) := by
  simp only [Pair.put, List.mem_append, List.mem_map, Prod.mk.injEq]
  refine ⟨?_, ?_⟩
  · intro hor
    rcases hor with h | ⟨m', hm', rfl, rfl⟩
    · exact .inl h
    · exact .inr ⟨rfl, hm'⟩
  · intro hor
    rcases hor with h | ⟨rfl, hm⟩
    · exact .inl h
    · exact .inr ⟨m, hm, rfl, rfl⟩

end Put

theorem Network.mem_of_mem_after {α : Type} {net : Network} {i : Nat} {msgs : List α} {p : α}
    (h : p ∈ net.after i msgs) : p ∈ msgs := by
  cases net with
  | once => exact List.mem_of_mem_eraseIdx h
  | duplicating => exact h

/-! ## Every index has one meaning

An index is drawn once, so it stands for one initiation or for one answer.
These are the consequences the two results need. -/

structure Wf (s : Pair ι) : Prop where
  pend_used : ∀ {x a}, (s.node x).pend = some a → a ∈ s.used
  link_used : ∀ {x l}, (s.node x).link = some l → l.own ∈ s.used ∧ l.theirs ∈ s.used
  init_used : ∀ {x a}, (x, .init a) ∈ s.flight → a ∈ s.used
  resp_used : ∀ {x a b}, (x, .resp a b) ∈ s.flight → a ∈ s.used ∧ b ∈ s.used
  /-- A party's answers are not under the index it waits on. -/
  resp_pend : ∀ {x a b c}, (x, .resp a b) ∈ s.flight → (s.node x.other).pend = some c → b ≠ c
  /-- A link under the index of a response is that response's. -/
  resp_link : ∀ {x a b l}, (x, .resp a b) ∈ s.flight → (s.node x.other).link = some l →
    l.own = b → l = .answered b a
  /-- A party has no link under the index it waits on. -/
  pend_own : ∀ {x a l}, (s.node x).pend = some a → (s.node x).link = some l → l.own ≠ a
  /-- A link under the index of an initiation is that initiation's. -/
  init_link : ∀ {x a l}, (x, .init a) ∈ s.flight → (s.node x.other).link = some l →
    l.own = a → l = .initiated a l.theirs
  /-- A link to the index a party waits on answers what it waits on. -/
  pend_link : ∀ {x a l}, (s.node x).pend = some a → (s.node x.other).link = some l →
    l.theirs = a → l = .answered l.own a

theorem wf_start {s : Pair ι} (h : Start s) : Wf s where
  pend_used hp := absurd hp h.pend_ne
  link_used hl := absurd hl h.link_ne
  init_used hm := absurd hm h.not_mem_flight
  resp_used hm := absurd hm h.not_mem_flight
  resp_pend hm := absurd hm h.not_mem_flight
  resp_link hm := absurd hm h.not_mem_flight
  pend_own hp := absurd hp h.pend_ne
  init_link hm := absurd hm h.not_mem_flight
  pend_link hp := absurd hp h.pend_ne

section Moves

variable {s : Pair ι} {x : Side} {n : Node ι} {kept : List (Side × Msg ι)}
  {out : List (Msg ι)} {used : List ι}

/-- A move that keeps the link, that at most forgets the handshake waited on
and that sends no response and no new initiation. -/
theorem wf_quiet (h : Wf s) (hkept : ∀ p ∈ kept, p ∈ s.flight)
    (hused : ∀ a ∈ s.used, a ∈ used) (hlink : n.link = (s.node x).link)
    (hpend : ∀ a, n.pend = some a → (s.node x).pend = some a)
    (hout : ∀ m ∈ out, m = .other ∨ ∃ a, m = .init a ∧ (s.node x).pend = some a) :
    Wf (s.put x n kept out used) := by
  have hpend' : ∀ {y a}, ((s.put x n kept out used).node y).pend = some a →
      (s.node y).pend = some a := by
    intro y a hp
    rcases pend_of_put hp with ⟨hy, hn⟩ | ⟨-, hp⟩
    · rw [hy]
      exact hpend a hn
    · exact hp
  have hresp : ∀ {y a b}, (y, .resp a b) ∈ (s.put x n kept out used).flight →
      (y, .resp a b) ∈ s.flight := by
    intro y a b hm
    rcases mem_flight_put.mp hm with hm | ⟨-, hm⟩
    · exact hkept _ hm
    · rcases hout _ hm with heq | ⟨c, heq, -⟩ <;> cases heq
  exact
    { pend_used := fun hp => hused _ (h.pend_used (hpend' hp))
      link_used := fun hl => by
        rw [link_put hlink] at hl
        exact ⟨hused _ (h.link_used hl).1, hused _ (h.link_used hl).2⟩
      init_used := fun hm => by
        rcases mem_flight_put.mp hm with hm | ⟨-, hm⟩
        · exact hused _ (h.init_used (hkept _ hm))
        · rcases hout _ hm with heq | ⟨c, heq, hc⟩ <;> cases heq
          exact hused _ (h.pend_used hc)
      resp_used := fun hm =>
        ⟨hused _ (h.resp_used (hresp hm)).1, hused _ (h.resp_used (hresp hm)).2⟩
      resp_pend := fun hm hp => h.resp_pend (hresp hm) (hpend' hp)
      resp_link := fun hm hl => by
        rw [link_put hlink] at hl
        exact h.resp_link (hresp hm) hl
      pend_own := fun hp hl => by
        rw [link_put hlink] at hl
        exact h.pend_own (hpend' hp) hl
      init_link := fun hm hl hown => by
        rw [link_put hlink] at hl
        rcases mem_flight_put.mp hm with hm | ⟨hy, hm⟩
        · exact h.init_link (hkept _ hm) hl hown
        · rcases hout _ hm with heq | ⟨c, heq, hc⟩ <;> cases heq
          rw [hy, Side.other_other] at hl
          exact absurd hown (h.pend_own hc hl)
      pend_link := fun hp hl => by
        rw [link_put hlink] at hl
        exact h.pend_link (hpend' hp) hl }

theorem wf_initiate {fresh : ι} (h : Wf s) (hkept : ∀ p ∈ kept, p ∈ s.flight)
    (hfresh : fresh ∉ s.used) :
    Wf (s.put x { s.node x with pend := some fresh } kept [.init fresh] (fresh :: s.used)) := by
  have hold : ∀ a ∈ s.used, a ∈ fresh :: s.used := fun a ha => List.mem_cons_of_mem fresh ha
  have hlink : ∀ y, ((s.put x { s.node x with pend := some fresh } kept [.init fresh]
      (fresh :: s.used)).node y).link = (s.node y).link := link_put rfl
  have hresp : ∀ {y a b}, (y, .resp a b) ∈ (s.put x { s.node x with pend := some fresh } kept
      [.init fresh] (fresh :: s.used)).flight → (y, .resp a b) ∈ s.flight := by
    intro y a b hm
    rcases mem_flight_put.mp hm with hm | ⟨-, hm⟩
    · exact hkept _ hm
    · cases List.mem_singleton.mp hm
  refine { pend_used := ?_, link_used := ?_, init_used := ?_, resp_used := ?_,
           resp_pend := ?_, resp_link := ?_, pend_own := ?_, init_link := ?_, pend_link := ?_ }
  · intro y a hp
    rcases pend_of_put hp with ⟨-, hp⟩ | ⟨-, hp⟩
    · cases hp
      exact List.mem_cons_self
    · exact hold a (h.pend_used hp)
  · intro y l hl
    rw [hlink] at hl
    exact ⟨hold _ (h.link_used hl).1, hold _ (h.link_used hl).2⟩
  · intro y a hm
    rcases mem_flight_put.mp hm with hm | ⟨-, hm⟩
    · exact hold a (h.init_used (hkept _ hm))
    · cases List.mem_singleton.mp hm
      exact List.mem_cons_self
  · intro y a b hm
    exact ⟨hold a (h.resp_used (hresp hm)).1, hold b (h.resp_used (hresp hm)).2⟩
  · intro y a b c hm hp
    rcases pend_of_put hp with ⟨-, hp⟩ | ⟨-, hp⟩
    · cases hp
      intro heq
      subst heq
      exact hfresh (h.resp_used (hresp hm)).2
    · exact h.resp_pend (hresp hm) hp
  · intro y a b l hm hl
    rw [hlink] at hl
    exact h.resp_link (hresp hm) hl
  · intro y a l hp hl
    rw [hlink] at hl
    rcases pend_of_put hp with ⟨-, hp⟩ | ⟨-, hp⟩
    · cases hp
      intro hown
      exact hfresh (hown ▸ (h.link_used hl).1)
    · exact h.pend_own hp hl
  · intro y a l hm hl hown
    rw [hlink] at hl
    rcases mem_flight_put.mp hm with hm | ⟨-, hm⟩
    · exact h.init_link (hkept _ hm) hl hown
    · cases List.mem_singleton.mp hm
      exact absurd (hown ▸ (h.link_used hl).1) hfresh
  · intro y a l hp hl htheirs
    rw [hlink] at hl
    rcases pend_of_put hp with ⟨-, hp⟩ | ⟨-, hp⟩
    · cases hp
      exact absurd (htheirs ▸ (h.link_used hl).2) hfresh
    · exact h.pend_link hp hl htheirs

theorem wf_answer {fresh a : ι} (h : Wf s) (hkept : ∀ p ∈ kept, p ∈ s.flight)
    (hfresh : fresh ∉ s.used) (ha : a ∈ s.used) :
    Wf (s.put x { s.node x with link := some (.answered fresh a) } kept [.resp a fresh]
      (fresh :: s.used)) := by
  have hold : ∀ a ∈ s.used, a ∈ fresh :: s.used := fun a ha => List.mem_cons_of_mem fresh ha
  have hpend : ∀ y, ((s.put x { s.node x with link := some (.answered fresh a) } kept
      [.resp a fresh] (fresh :: s.used)).node y).pend = (s.node y).pend := pend_put rfl
  -- a response after the move is an old one or the answer just sent
  have hresp : ∀ {y c d}, (y, .resp c d) ∈ (s.put x { s.node x with
      link := some (.answered fresh a) } kept [.resp a fresh] (fresh :: s.used)).flight →
      (y, .resp c d) ∈ s.flight ∨ (y = x.other ∧ c = a ∧ d = fresh) := by
    intro y c d hm
    rcases mem_flight_put.mp hm with hm | ⟨hy, hm⟩
    · exact .inl (hkept _ hm)
    · cases List.mem_singleton.mp hm
      exact .inr ⟨hy, rfl, rfl⟩
  refine { pend_used := ?_, link_used := ?_, init_used := ?_, resp_used := ?_,
           resp_pend := ?_, resp_link := ?_, pend_own := ?_, init_link := ?_, pend_link := ?_ }
  · intro y c hp
    rw [hpend] at hp
    exact hold c (h.pend_used hp)
  · intro y l hl
    rcases link_of_put hl with ⟨-, hl⟩ | ⟨-, hl⟩
    · cases hl
      exact ⟨List.mem_cons_self, hold a ha⟩
    · exact ⟨hold _ (h.link_used hl).1, hold _ (h.link_used hl).2⟩
  · intro y c hm
    rcases mem_flight_put.mp hm with hm | ⟨-, hm⟩
    · exact hold c (h.init_used (hkept _ hm))
    · cases List.mem_singleton.mp hm
  · intro y c d hm
    rcases hresp hm with hm | ⟨-, rfl, rfl⟩
    · exact ⟨hold c (h.resp_used hm).1, hold d (h.resp_used hm).2⟩
    · exact ⟨hold _ ha, List.mem_cons_self⟩
  · intro y c d e hm hp
    rw [hpend] at hp
    rcases hresp hm with hm | ⟨-, -, rfl⟩
    · exact h.resp_pend hm hp
    · intro heq
      subst heq
      exact hfresh (h.pend_used hp)
  · intro y c d l hm hl hown
    rcases link_of_put hl with ⟨-, hl⟩ | ⟨hy, hl⟩
    · cases hl
      have hd : fresh = d := hown
      subst hd
      rcases hresp hm with hm | ⟨-, rfl, -⟩
      · exact absurd (h.resp_used hm).2 hfresh
      · rfl
    · rcases hresp hm with hm | ⟨hyo, -, -⟩
      · exact h.resp_link hm hl hown
      · rw [hyo, Side.other_other] at hy
        exact absurd hy.symm (Side.other_ne x)
  · intro y c l hp hl
    rw [hpend] at hp
    rcases link_of_put hl with ⟨-, hl⟩ | ⟨-, hl⟩
    · cases hl
      intro heq
      subst heq
      exact hfresh (h.pend_used hp)
    · exact h.pend_own hp hl
  · intro y c l hm hl hown
    rcases mem_flight_put.mp hm with hm | ⟨-, hm⟩
    · rcases link_of_put hl with ⟨-, hl⟩ | ⟨-, hl⟩
      · cases hl
        have hc : fresh = c := hown
        subst hc
        exact absurd (h.init_used (hkept _ hm)) hfresh
      · exact h.init_link (hkept _ hm) hl hown
    · cases List.mem_singleton.mp hm
  · intro y c l hp hl htheirs
    rw [hpend] at hp
    rcases link_of_put hl with ⟨-, hl⟩ | ⟨-, hl⟩
    · cases hl
      have hc : a = c := htheirs
      subst hc
      rfl
    · exact h.pend_link hp hl htheirs

theorem wf_complete {fresh a b : ι} (h : Wf s) (hkept : ∀ p ∈ kept, p ∈ s.flight)
    (hpend : (s.node x).pend = some a) (hmsg : (x, .resp a b) ∈ s.flight) :
    Wf (s.put x ⟨none, some (.initiated a b)⟩ kept [.other] (fresh :: s.used)) := by
  have hold : ∀ a ∈ s.used, a ∈ fresh :: s.used := fun a ha => List.mem_cons_of_mem fresh ha
  have hpend' : ∀ {y c}, ((s.put x ⟨none, some (.initiated a b)⟩ kept [.other]
      (fresh :: s.used)).node y).pend = some c → y = x.other ∧ (s.node y).pend = some c := by
    intro y c hp
    rcases pend_of_put hp with ⟨-, hp⟩ | hp
    · cases hp
    · exact hp
  have hflight : ∀ {y m}, m ≠ .other → (y, m) ∈ (s.put x ⟨none, some (.initiated a b)⟩ kept
      [.other] (fresh :: s.used)).flight → (y, m) ∈ s.flight := by
    intro y m hne hm
    rcases mem_flight_put.mp hm with hm | ⟨-, hm⟩
    · exact hkept _ hm
    · exact absurd (List.mem_singleton.mp hm) hne
  have hresp : ∀ {y c d}, (y, .resp c d) ∈ (s.put x ⟨none, some (.initiated a b)⟩ kept
      [.other] (fresh :: s.used)).flight → (y, .resp c d) ∈ s.flight :=
    fun hm => hflight (by simp) hm
  refine { pend_used := ?_, link_used := ?_, init_used := ?_, resp_used := ?_,
           resp_pend := ?_, resp_link := ?_, pend_own := ?_, init_link := ?_, pend_link := ?_ }
  · intro y c hp
    exact hold c (h.pend_used (hpend' hp).2)
  · intro y l hl
    rcases link_of_put hl with ⟨-, hl⟩ | ⟨-, hl⟩
    · cases hl
      exact ⟨hold a (h.resp_used hmsg).1, hold b (h.resp_used hmsg).2⟩
    · exact ⟨hold _ (h.link_used hl).1, hold _ (h.link_used hl).2⟩
  · intro y c hm
    exact hold c (h.init_used (hflight (by simp) hm))
  · intro y c d hm
    exact ⟨hold c (h.resp_used (hresp hm)).1, hold d (h.resp_used (hresp hm)).2⟩
  · intro y c d e hm hp
    exact h.resp_pend (hresp hm) (hpend' hp).2
  · intro y c d l hm hl hown
    rcases link_of_put hl with ⟨hy, hl⟩ | ⟨-, hl⟩
    · cases hl
      -- our own answers are not under the index we waited on
      rw [← hy] at hpend
      exact absurd hown.symm (h.resp_pend (hresp hm) hpend)
    · exact h.resp_link (hresp hm) hl hown
  · intro y c l hp hl
    obtain ⟨rfl, hp⟩ := hpend' hp
    rw [node_put_other] at hl
    exact h.pend_own hp hl
  · intro y c l hm hl hown
    have hm := hflight (by simp) hm
    rcases link_of_put hl with ⟨-, hl⟩ | ⟨-, hl⟩
    · cases hl
      rw [← hown]
      rfl
    · exact h.init_link hm hl hown
  · intro y c l hp hl htheirs
    obtain ⟨rfl, hp⟩ := hpend' hp
    rw [Side.other_other, node_put_self] at hl
    cases hl
    exact absurd htheirs (h.resp_pend hmsg hp)

end Moves

theorem wf_step {lost : ι → Prop} {net : Network} {s t : Pair ι} {e : Event ι} (h : Wf s)
    (hstep : Step lost net s e t) : Wf t := by
  cases hstep with
  | @deliver i x m fresh n out hat hfresh hrecv =>
      have hkept : ∀ p ∈ net.after i s.flight, p ∈ s.flight := fun p hp =>
        Network.mem_of_mem_after hp
      have hmem : (x, m) ∈ s.flight := List.mem_of_getElem? hat
      cases hrecv with
      | ignore _ hout =>
          exact wf_quiet h hkept (fun a ha => List.mem_cons_of_mem fresh ha) rfl
            (fun _ hp => hp) fun m hm => .inl (hout m hm)
      | answer => exact wf_answer h hkept hfresh (h.init_used hmem)
      | complete hpend => exact wf_complete h hkept hpend hmem
      | start => exact wf_initiate h hkept hfresh
  | @tick x n out htick =>
      cases htick with
      | keep hout =>
          exact wf_quiet h (fun p hp => hp) (fun a ha => ha) rfl (fun _ hp => hp) hout
      | giveUp hout =>
          exact wf_quiet h (fun p hp => hp) (fun a ha => ha) rfl (fun _ hp => by cases hp)
            fun m hm => .inl (hout m hm)

/-! ## Agreement under once-only delivery -/

/-- The two links are the two ends of one handshake. -/
def Matched (s : Pair ι) : Prop :=
  ∃ x a b, (s.node x).link = some (.initiated a b) ∧
    (s.node x.other).link = some (.answered b a)

theorem mirror_of_matched {s : Pair ι} (h : Matched s) {x : Side} {l : Link ι}
    (hl : (s.node x).link = some l) : (s.node x.other).link = some l.mirror := by
  obtain ⟨y, a, b, hi, ha⟩ := h
  rcases Side.eq_or_other y x with rfl | rfl
  · rw [hl] at hi
    cases hi
    exact ha
  · rw [hl] at ha
    cases ha
    rw [Side.other_other]
    exact hi

/-- `x` waits on the handshake that the other's link answers. -/
def Waits (s : Pair ι) (x : Side) : Prop :=
  ∃ l, (s.node x.other).link = some l ∧ (s.node x).pend = some l.theirs

/-- The condition for agreement. An initiation is answered only while its
sender waits on it, has no link, or has the link the answerer waits on; a
response completes a handshake only while its sender holds the link it
announces; and a party with a link may give up a handshake only if the other
has not answered it, or is itself waiting on that link. -/
def Orderly (lost : ι → Prop) (s : Pair ι) : Event ι → Prop
  | .deliver i fresh => ¬lost fresh ∧
      (∀ x a, s.flight[i]? = some (x, .init a) →
        (s.node x.other).link = none ∨ (s.node x.other).pend = some a ∨ Waits s x) ∧
      (∀ x a b, s.flight[i]? = some (x, .resp a b) → (s.node x).pend = some a →
        ∃ l, (s.node x.other).link = some l ∧ l.own = b)
  | .tick x => (s.node x).link = none ∨ ¬Waits s x ∨ Waits s x.other

structure AgreeInv (lost : ι → Prop) (s : Pair ι) : Prop where
  wf : Wf s
  found : ∀ {a}, a ∈ s.used → ¬lost a
  /-- The answer to a handshake still waited on is under way. -/
  heard : ∀ {x a b}, (s.node x).pend = some a → (s.node x.other).link = some (.answered b a) →
    (x, .resp a b) ∈ s.flight
  settled : (∀ x, (s.node x).link ≠ none) → Matched s ∨ ∃ x, Waits s x

theorem mem_eraseIdx_of_ne {α : Type} {l : List α} {i : Nat} {p q : α} (h : p ∈ l)
    (hi : l[i]? = some q) (hne : p ≠ q) : p ∈ l.eraseIdx i := by
  obtain ⟨j, hj⟩ := List.mem_iff_getElem?.mp h
  refine List.mem_eraseIdx_iff_getElem?.mpr ⟨j, ?_, hj⟩
  intro heq
  subst heq
  exact hne (Option.some.inj (hj.symm.trans hi))

theorem agree_start {lost : ι → Prop} {s : Pair ι} (h : Start s) : AgreeInv lost s where
  wf := wf_start h
  found ha := by
    rw [h.used] at ha
    cases ha
  heard hp := absurd hp h.pend_ne
  settled hl := absurd (h.link .left) (hl .left)

section AgreeMoves

variable {lost : ι → Prop} {s : Pair ι} {x : Side} {kept : List (Side × Msg ι)} {fresh : ι}

/-- A step that changes neither party and loses no response waited on. -/
theorem agree_of_node {t : Pair ι} (h : AgreeInv lost s) (hwf : Wf t)
    (hfound : ∀ {a}, a ∈ t.used → ¬lost a) (hnode : t.node = s.node)
    (hstay : ∀ {y a b}, (s.node y).pend = some a → (y, .resp a b) ∈ s.flight →
      (y, .resp a b) ∈ t.flight) : AgreeInv lost t := by
  refine ⟨hwf, hfound, ?_, ?_⟩
  · intro y a b hp hl
    rw [hnode] at hp hl
    exact hstay hp (h.heard hp hl)
  · intro hboth
    rw [hnode] at hboth
    simpa only [Matched, Waits, hnode] using h.settled hboth

theorem agree_answer {a : ι} (h : AgreeInv lost s)
    (hwf : Wf (s.put x { s.node x with link := some (.answered fresh a) } kept [.resp a fresh]
      (fresh :: s.used)))
    (hfound : ∀ {a}, a ∈ fresh :: s.used → ¬lost a)
    (hstay : ∀ {y a b}, (y, .resp a b) ∈ s.flight → (y, .resp a b) ∈ kept)
    (hinit : (s.node x.other).link = none ∨ (s.node x.other).pend = some a ∨ Waits s x) :
    AgreeInv lost (s.put x { s.node x with link := some (.answered fresh a) } kept
      [.resp a fresh] (fresh :: s.used)) := by
  refine ⟨hwf, hfound, ?_, ?_⟩
  · intro y c d hp hl
    rcases Side.eq_or_other x y with rfl | rfl
    · rw [node_put_self] at hp
      rw [node_put_other] at hl
      exact mem_flight_put.mpr (.inl (hstay (h.heard hp hl)))
    · rw [Side.other_other, node_put_self] at hl
      cases hl
      exact mem_flight_put.mpr (.inr ⟨rfl, List.mem_singleton.mpr rfl⟩)
  · intro hboth
    have hother := hboth x.other
    rw [node_put_other] at hother
    rcases hinit with hnone | hp | ⟨l, hl, hp⟩
    · exact absurd hnone hother
    · refine .inr ⟨x.other, .answered fresh a, ?_, ?_⟩
      · rw [Side.other_other, node_put_self]
      · rw [node_put_other]
        exact hp
    · refine .inr ⟨x, l, ?_, ?_⟩
      · rw [node_put_other]
        exact hl
      · rw [node_put_self]
        exact hp

theorem agree_complete {a b : ι}
    (hwf : Wf (s.put x ⟨none, some (.initiated a b)⟩ kept [.other] (fresh :: s.used)))
    (hfound : ∀ {a}, a ∈ fresh :: s.used → ¬lost a)
    (hans : (s.node x.other).link = some (.answered b a)) :
    AgreeInv lost (s.put x ⟨none, some (.initiated a b)⟩ kept [.other] (fresh :: s.used)) := by
  refine ⟨hwf, hfound, ?_, fun _ => .inl ⟨x, a, b, ?_, ?_⟩⟩
  · intro y c d hp hl
    rcases Side.eq_or_other x y with rfl | rfl
    · rw [node_put_self] at hp
      cases hp
    · rw [Side.other_other, node_put_self] at hl
      cases hl
  · rw [node_put_self]
  · rw [node_put_other, hans]

theorem agree_initiate (h : AgreeInv lost s)
    (hwf : Wf (s.put x { s.node x with pend := some fresh } kept [.init fresh] (fresh :: s.used)))
    (hfound : ∀ {a}, a ∈ fresh :: s.used → ¬lost a) (hfresh : fresh ∉ s.used)
    (hlink : (s.node x).link = none) :
    AgreeInv lost (s.put x { s.node x with pend := some fresh } kept [.init fresh]
      (fresh :: s.used)) := by
  refine ⟨hwf, hfound, ?_, ?_⟩
  · intro y c d hp hl
    rcases Side.eq_or_other x y with rfl | rfl
    · rw [node_put_self] at hp
      rw [node_put_other] at hl
      cases hp
      exact absurd (h.wf.link_used hl).2 hfresh
    · rw [Side.other_other, node_put_self, hlink] at hl
      cases hl
  · intro hboth
    have hx := hboth x
    rw [node_put_self] at hx
    exact absurd hlink hx

theorem agree_giveUp {out : List (Msg ι)} (h : AgreeInv lost s)
    (hwf : Wf (s.put x { s.node x with pend := none } s.flight out s.used))
    (hok : (s.node x).link = none ∨ ¬Waits s x ∨ Waits s x.other) :
    AgreeInv lost (s.put x { s.node x with pend := none } s.flight out s.used) := by
  have hlink : ∀ y, ((s.put x { s.node x with pend := none } s.flight out
      s.used).node y).link = (s.node y).link := link_put rfl
  -- what the other waits on is not touched
  have hkeep : Waits s x.other → Waits (s.put x { s.node x with pend := none } s.flight
      out s.used) x.other := by
    intro hwait
    obtain ⟨l, hl, hp⟩ := hwait
    refine ⟨l, ?_, ?_⟩
    · rw [hlink]
      exact hl
    · rw [node_put_other]
      exact hp
  refine ⟨hwf, h.found, ?_, ?_⟩
  · intro y a b hp hl
    rw [hlink] at hl
    rcases pend_of_put hp with ⟨-, hp⟩ | ⟨-, hp⟩
    · cases hp
    · exact mem_flight_put.mpr (.inl (h.heard hp hl))
  · intro hboth
    have hboth' : ∀ y, (s.node y).link ≠ none := fun y => hlink y ▸ hboth y
    rcases h.settled hboth' with ⟨y, a, b, hi, ha⟩ | ⟨y, hw⟩
    · refine .inl ⟨y, a, b, ?_, ?_⟩
      · rw [hlink]
        exact hi
      · rw [hlink]
        exact ha
    · rcases Side.eq_or_other x y with rfl | rfl
      · rcases hok with hnone | hnot | hother
        · exact absurd hnone (hboth' y)
        · exact absurd hw hnot
        · exact .inr ⟨y.other, hkeep hother⟩
      · exact .inr ⟨x.other, hkeep hw⟩

end AgreeMoves

theorem agree_step {lost : ι → Prop} {s t : Pair ι} {e : Event ι} (h : AgreeInv lost s)
    (hok : Orderly lost s e) (hstep : Step lost .once s e t) : AgreeInv lost t := by
  have hwf := wf_step h.wf hstep
  cases hstep with
  | @deliver i x m fresh n out hat hfresh hrecv =>
      obtain ⟨hnew, hinit, hresp⟩ := hok
      have hfound : ∀ {a}, a ∈ fresh :: s.used → ¬lost a := by
        intro a ha
        rcases List.mem_cons.mp ha with rfl | ha
        · exact hnew
        · exact h.found ha
      -- a response other than the message delivered is still under way
      have hstay : ∀ {y a b}, (y, .resp a b) ∈ s.flight → (y, .resp a b) ≠ (x, m) →
          (y, .resp a b) ∈ s.flight.eraseIdx i := fun hm hne => mem_eraseIdx_of_ne hm hat hne
      cases hrecv with
      | ignore hmiss _ =>
          refine agree_of_node h hwf hfound (Function.update_eq_self ..) ?_
          intro y a b hp hm
          refine mem_flight_put.mpr (.inl (hstay hm ?_))
          intro heq
          cases heq
          exact h.found (h.wf.resp_used hm).2 (hmiss a b rfl hp)
      | @answer a => exact agree_answer h hwf hfound (fun hm => hstay hm (by simp)) (hinit x a hat)
      | @complete a b hpend =>
          obtain ⟨l, hl, hown⟩ := hresp x a b hat hpend
          rw [h.wf.resp_link (List.mem_of_getElem? hat) hl hown] at hl
          exact agree_complete hwf hfound hl
      | start hpend hlink => exact agree_initiate h hwf hfound hfresh hlink
  | @tick x n out htick =>
      cases htick with
      | keep hout =>
          exact agree_of_node h hwf h.found (Function.update_eq_self ..)
            fun _ hm => mem_flight_put.mpr (.inl hm)
      | giveUp hout => exact agree_giveUp h hwf hok

/-- With no response under way, two links match. -/
theorem agree_of_quiet {lost : ι → Prop} {s : Pair ι} (h : AgreeInv lost s)
    (hquiet : ∀ x a b, (x, .resp a b) ∉ s.flight) (hboth : ∀ x, (s.node x).link ≠ none) :
    Matched s := by
  rcases h.settled hboth with hmatched | ⟨x, l, hl, hp⟩
  · exact hmatched
  · have hans := h.wf.pend_link hp hl rfl
    rw [hans] at hl
    exact absurd (h.heard hp hl) (hquiet x _ _)

/-! ## Initiators under duplicating delivery -/

/-- The condition for the initiator's link. An initiation is answered only
while the answerer's link is not the one its sender sends to, and a response
completes a handshake only while its sender holds the link it announces. -/
def Undisturbed (s : Pair ι) : Event ι → Prop
  | .deliver i _ =>
      (∀ x a l l', s.flight[i]? = some (x, .init a) → (s.node x.other).link = some l →
        (s.node x).link = some l' → l.theirs ≠ l'.own) ∧
      (∀ x a b, s.flight[i]? = some (x, .resp a b) → (s.node x).pend = some a →
        ∃ l, (s.node x.other).link = some l ∧ l.own = b)
  | .tick _ => True

structure HeldInv (s : Pair ι) : Prop where
  wf : Wf s
  held : ∀ {x a b}, (s.node x).link = some (.initiated a b) →
    (s.node x.other).link = some (.answered b a)

theorem held_start {s : Pair ι} (h : Start s) : HeldInv s where
  wf := wf_start h
  held hl := absurd hl h.link_ne

/-- A move that keeps the link keeps what is held. -/
theorem held_of_link {s t : Pair ι} (h : HeldInv s) (hwf : Wf t)
    (hlink : ∀ y, (t.node y).link = (s.node y).link) : HeldInv t := by
  refine ⟨hwf, ?_⟩
  intro x a b hl
  rw [hlink] at hl ⊢
  exact h.held hl

theorem held_step {lost : ι → Prop} {net : Network} {s t : Pair ι} {e : Event ι}
    (h : HeldInv s) (hok : Undisturbed s e) (hstep : Step lost net s e t) : HeldInv t := by
  have hwf := wf_step h.wf hstep
  cases hstep with
  | @deliver i x m fresh n out hat hfresh hrecv =>
      obtain ⟨hinit, hresp⟩ := hok
      cases hrecv with
      | ignore _ _ => exact held_of_link h hwf (link_put rfl)
      | @answer a =>
          refine ⟨hwf, ?_⟩
          intro y c d hl
          rcases Side.eq_or_other x y with rfl | rfl
          · rw [node_put_self] at hl
            cases hl
          · rw [node_put_other] at hl
            have hans := h.held hl
            rw [Side.other_other] at hans
            exact absurd rfl (hinit x a _ _ hat hl hans)
      | @complete a b hpend =>
          obtain ⟨l, hl, hown⟩ := hresp x a b hat hpend
          have hans := h.wf.resp_link (List.mem_of_getElem? hat) hl hown
          refine ⟨hwf, ?_⟩
          intro y c d hy
          rcases Side.eq_or_other x y with rfl | rfl
          · rw [node_put_self] at hy
            cases hy
            rw [node_put_other, hl, hans]
          · rw [node_put_other, hl, hans] at hy
            cases hy
      | start hpend hlink => exact held_of_link h hwf (link_put rfl)
  | @tick x n out htick =>
      have hn : n.link = (s.node x).link := by
        cases htick <;> rfl
      exact held_of_link h hwf (link_put hn)

end System

end TailscaleRust.Lib.Pairing
