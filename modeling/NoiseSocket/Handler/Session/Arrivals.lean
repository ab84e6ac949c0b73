import NoiseSocket.Handler.Session

open Exec Exec.Result

namespace ngx_nsoc

variable {S T R : Type}

open Endpoint

/-- What is left of the stream changes, and what is on the way. -/
def Party.restock (p : Party S) (rx : Net.Incoming) (pending : List UInt8) : Party S :=
  { p with w := p.w.leaving rx, pending }

/-- Nothing is on the way to this end, and nothing has come in that it has not read. -/
structure Party.Bare (p : Party S) : Prop where
  rx : ∃ a, p.w.env.rx = ⟨List.replicate a .again, false⟩
  pending : p.pending = []

/-- The message `frame` is on the way to this end with `later` behind it, and has arrived as a whole or not
at all. -/
inductive Party.Expects (frame later : List UInt8) (p : Party S) : Prop where
  | pending (a : Nat) (hrx : p.w.env.rx = ⟨List.replicate a .again, false⟩)
      (hpending : p.pending = frame ++ later)
  | arrived (a : Nat) (more : List UInt8) (rest : List Net.Item)
      (hrx : p.w.env.rx = ⟨List.replicate a .again ++ Net.unread (frame ++ more) rest, false⟩)
      (herror : .error ∉ rest) (hlater : more ++ Net.Incoming.bytes ⟨rest, false⟩ ++ p.pending = later)

section

variable {N : NoiseC S} {fuel : Nat} {c c' : Channel S} {p : Party S} {neg message later : List UInt8}

theorem unread_append (bytes : List UInt8) (items items' : List Net.Item) :
    Net.unread bytes (items ++ items') = Net.unread bytes items ++ items' := by
  cases bytes <;> rfl

theorem handshake_frame_ne_nil (neg message : List UInt8) : handshake_frame neg message ≠ [] := by
  simp [handshake_frame, lenBytes]

/-- The length of a message is in the message. -/
theorem message_length_frame (hneg : neg.length < 65536) (hmessage : message.length < 65536)
    (later : List UInt8) :
    message_length (handshake_frame neg message ++ later) = (handshake_frame neg message).length := by
  have hdrop : (neg ++ (lenBytes message.length ++ message) ++ later).drop neg.length =
      lenBytes message.length ++ message ++ later := by
    rw [List.append_assoc, List.drop_left]
  have hlist : handshake_frame neg message ++ later = UInt8.ofNat (neg.length / 256) ::
      UInt8.ofNat neg.length :: (neg ++ (lenBytes message.length ++ message) ++ later) := by
    simp [handshake_frame, lenBytes]
  rw [hlist, message_length, be16_lenBytes hneg, hdrop]
  simp only [lenBytes, List.cons_append, List.nil_append, be16_lenBytes hmessage]
  simp [handshake_frame, lenBytes]
  omega

/-- What an arrival or a pause does at an end. -/
structure Arrives (p q : Party S) : Prop where
  restock : ∃ rx pending, q = p.restock rx pending
  bare : p.Bare → q.Bare
  expects : ∀ neg message later : List UInt8, neg.length < 65536 → message.length < 65536 →
    p.Expects (handshake_frame neg message) later → q.Expects (handshake_frame neg message) later

theorem arrives_pause (p : Party S) : Arrives p (p.feed .again) := by
  refine ⟨⟨_, p.pending, rfl⟩, ?_, ?_⟩
  · intro hbare
    obtain ⟨⟨a, hrx⟩, hpending⟩ := hbare
    refine ⟨⟨a + 1, ?_⟩, hpending⟩
    simp only [Party.feed, hrx, List.replicate_succ']
  · intro neg message later _ _ hexpects
    cases hexpects with
    | pending a hrx hpending =>
      refine .pending (a + 1) ?_ hpending
      simp only [Party.feed, hrx, List.replicate_succ']
    | arrived a more rest hrx herror hlater =>
      refine .arrived a more (rest ++ [.again]) ?_ ?_ ?_
      · simp only [Party.feed, hrx, unread_append, List.append_assoc]
      · simpa using herror
      · show more ++ Net.Incoming.bytes ⟨rest ++ [.again], false⟩ ++ p.pending = later
        rw [← hlater]
        simp [Net.Incoming.bytes]

theorem arrives_deliver (p : Party S) {n : Nat} {b : UInt8} {bs : List UInt8}
    (htake : p.pending.take (n + 1) = b :: bs) (hwhole : message_length p.pending ≤ n + 1) :
    Arrives p { p.feed (.data b bs) with pending := p.pending.drop (n + 1) } := by
  refine ⟨⟨_, _, rfl⟩, ?_, ?_⟩
  · intro hbare
    rw [hbare.pending, List.take_nil] at htake
    cases htake
  · intro neg message later hneg hmessage hexpects
    cases hexpects with
    | pending a hrx hpending =>
      rw [hpending, message_length_frame hneg hmessage] at hwhole
      obtain ⟨k, hk⟩ : ∃ k, n + 1 = (handshake_frame neg message).length + k := Nat.exists_eq_add_of_le hwhole
      have hcut : b :: bs = handshake_frame neg message ++ later.take k := by
        rw [← htake, hpending, hk, List.take_length_add_append]
      refine .arrived a (later.take k) [] ?_ (by simp) ?_
      · rw [← hcut]
        simp only [Party.feed, hrx]
        rfl
      · show later.take k ++ [] ++ p.pending.drop (n + 1) = later
        rw [hpending, hk, List.drop_length_add_append, List.append_nil, List.take_append_drop]
    | arrived a more rest hrx herror hlater =>
      refine .arrived a more (rest ++ [.data b bs]) ?_ ?_ ?_
      · simp only [Party.feed, hrx, unread_append, List.append_assoc]
      · simpa using herror
      · have hbytes : Net.Incoming.bytes ⟨rest ++ [.data b bs], false⟩ =
            Net.Incoming.bytes ⟨rest, false⟩ ++ p.pending.take (n + 1) := by
          rw [htake]
          simp [Net.Incoming.bytes]
        show more ++ Net.Incoming.bytes ⟨rest ++ [.data b bs], false⟩ ++ p.pending.drop (n + 1) = later
        rw [hbytes, ← hlater]
        simp only [List.append_assoc, List.take_append_drop]

/-- A network act at an end that is in its handshake. -/
theorem apply_network {act : Act} (hact : act = .pause ∨ ∃ n, act = .deliver n)
    (hallowed : (SessionAct.data act).Allowed c) (hhandshaked : c.near.w.nc.handshaked = false)
    (hstep : act.apply N fuel c = ok c') : ∃ q, Arrives c.near q ∧ c' = { c with near := q } := by
  obtain rfl | ⟨n, rfl⟩ := hact
  · cases hstep
    exact ⟨_, arrives_pause c.near, rfl⟩
  · simp only [Act.apply] at hstep
    split at hstep
    · cases hstep
      exact ⟨c.near, ⟨⟨c.near.w.env.rx, c.near.pending, rfl⟩, id, fun _ _ _ _ _ h => h⟩, rfl⟩
    · rename_i b bs htake
      cases hstep
      exact ⟨_, arrives_deliver c.near htake (hallowed hhandshaked), rfl⟩

/-- Before its handshake is over an end only calls the handshake. -/
theorem SessionAct.cases_of_early {act : SessionAct} (hallowed : act.Allowed c)
    (hhandshaked : c.near.w.nc.handshaked = false) :
    act = .handshake ∨ ∃ a, act = .data a ∧ (a = .pause ∨ ∃ n, a = .deliver n) := by
  cases act with
  | handshake => exact .inl rfl
  | data a =>
    cases a with
    | write data payload => exact absurd (hhandshaked.symm.trans hallowed.1) Bool.false_ne_true
    | recv buf size => exact absurd (hhandshaked.symm.trans hallowed.1) Bool.false_ne_true
    | deliver n => exact .inr ⟨_, rfl, .inr ⟨n, rfl⟩⟩
    | pause => exact .inr ⟨_, rfl, .inl rfl⟩

/-- A call of the handshake. -/
theorem apply_handshake {n : Int} {v : Endpoint S} (hcall : c.near.w.do_handshake_process N fuel = ok (n, v))
    (hn : n = NGX_OK ∨ n = NGX_AGAIN) {out : List UInt8} (htx : v.env.tx = c.near.w.env.tx ++ out) :
    SessionAct.handshake.apply N fuel c = ok
      { near := { c.near with w := v }
        far := { c.far with pending := c.far.pending ++ out } } := by
  have hfine : (n != NGX_OK && n != NGX_AGAIN) = false := by
    obtain rfl | rfl := hn <;> rfl
  simp only [SessionAct.apply, hcall, bind_ok, hfine, Bool.or_false, htx, List.drop_left]

theorem recv_replicate {a size : Nat} {items : List Net.Item}
    (h : p.w.env.rx = ⟨List.replicate (a + 1) .again ++ items, false⟩) :
    p.w.env.rx.recv size = (.again, ⟨List.replicate a .again ++ items, false⟩) := by
  rw [h]
  rfl

/-- An end to which nothing has come in has nothing to read, and nothing changes by its looking. -/
theorem Party.Bare.recv (h : p.Bare) (size : Nat) : ∃ rx, p.w.env.rx.recv size = (.again, rx) ∧
    ∀ v : Endpoint S, v.env.rx = rx → ({ p with w := v } : Party S).Bare := by
  obtain ⟨⟨a, hrx⟩, hpending⟩ := h
  cases a with
  | zero =>
    refine ⟨⟨[], false⟩, by rw [hrx]; rfl, ?_⟩
    intro v hv
    exact ⟨⟨0, hv⟩, hpending⟩
  | succ a =>
    refine ⟨⟨List.replicate a .again, false⟩, by rw [hrx]; rfl, ?_⟩
    intro v hv
    exact ⟨⟨a, hv⟩, hpending⟩

/-- An end that expects a message has nothing to read yet, or the whole message. -/
theorem Party.Expects.recv {frame : List UInt8} (h : p.Expects frame later) (size : Nat) :
    (∃ rx, p.w.env.rx.recv size = (.again, rx) ∧
      ∀ v : Endpoint S, v.env.rx = rx → ({ p with w := v } : Party S).Expects frame later) ∨
    ∃ left, Leads frame left p.w ∧ left.Live ∧ left.bytes ++ p.pending = later := by
  cases h with
  | pending a hrx hpending =>
    left
    cases a with
    | zero =>
      refine ⟨⟨[], false⟩, by rw [hrx]; rfl, ?_⟩
      intro v hv
      exact .pending 0 hv hpending
    | succ a =>
      refine ⟨⟨List.replicate a .again, false⟩, by rw [hrx]; rfl, ?_⟩
      intro v hv
      exact .pending a hv hpending
  | arrived a more rest hrx herror hlater =>
    cases a with
    | zero =>
      right
      refine ⟨⟨Net.unread more rest, false⟩, ⟨more, rest, false, hrx, rfl⟩, ?_, ?_⟩
      · exact Net.Incoming.live_unread ⟨rfl, herror⟩
      · rw [Net.Incoming.bytes_unread, hlater]
    | succ a =>
      left
      refine ⟨⟨List.replicate a .again ++ Net.unread (frame ++ more) rest, false⟩, recv_replicate hrx, ?_⟩
      intro v hv
      exact .arrived a more rest hv herror hlater

end

end ngx_nsoc
