import EspModemLink.WebSocket.ControlFlow

/-!
# Several WebSocket clients

Any number of clients on the same threads. A callback of one may call another, and a call into the
transport of one may deliver to another. `draining_client` is one pointer for each thread.
-/

namespace EspModemLink.WebSocket

open Bytes Sections

/-- A section of a client. A client is known by its number. -/
structure Work where
  client : ℕ
  task : Task

def workOf (client : ℕ) (tasks : List Task) : List Work := tasks.map (Work.mk client)

/-- The clients, and what `draining_client` of every thread points to. Here this takes the place of
the clients' own `draining`. -/
structure Clients where
  conn : ℕ → Conn := fun _ => {}
  draining : ℕ → Option ℕ := fun _ => none

/-- What the outside decides: what it decides for the client of the section, or a call or a delivery
to any client out of the section. -/
inductive Happening where
  | own (c : Choice)
  | meanwhile (client : ℕ) (e : Entry)

/-- A call into a transport. -/
def Sect.inTransport : Sect → Bool
  | .transportConnect .. | .sending .. | .disconnecting _ => true
  | _ => false

/-- A transport delivers out of a call into one, and the application calls out of a callback. -/
def Sect.letsIn (s : Sect) : Entry → Bool
  | .call _ =>
      match s with
      | .inCallback => true
      | _ => false
  | .data .. | .closed _ => s.inTransport
  | .maintain => false

namespace Clients

def setConn (s : Clients) (k : ℕ) (w : Conn) : Clients :=
  { s with conn := Function.update s.conn k w }

def setDraining (s : Clients) (i : ℕ) (client : Option ℕ) : Clients :=
  { s with draining := Function.update s.draining i client }

@[simp] theorem setConn_draining (s : Clients) (k : ℕ) (w : Conn) :
    (s.setConn k w).draining = s.draining := rfl

@[simp] theorem setDraining_conn (s : Clients) (i : ℕ) (client : Option ℕ) :
    (s.setDraining i client).conn = s.conn := rfl

@[simp] theorem setConn_conn_self (s : Clients) (k : ℕ) (w : Conn) :
    (s.setConn k w).conn k = w := Function.update_self ..

theorem setConn_conn_of_ne (s : Clients) {k k' : ℕ} (h : k' ≠ k) (w : Conn) :
    (s.setConn k w).conn k' = s.conn k' := Function.update_of_ne h ..

@[simp] theorem setDraining_self (s : Clients) (i : ℕ) (client : Option ℕ) :
    (s.setDraining i client).draining i = client := Function.update_self ..

theorem setDraining_of_ne (s : Clients) {i j : ℕ} (h : j ≠ i) (client : Option ℕ) :
    (s.setDraining i client).draining j = s.draining j := Function.update_of_ne h ..

/-- The guard of `OnTransportData`. -/
def enterDrain (s : Clients) (i : ℕ) (k : Work) : Clients × List Work :=
  if s.draining i = some k.client then (s, [])
  else (s.setDraining i (some k.client),
    workOf k.client (k.task.origin.tasks [.drainFrames, .leaveDrain]))

/-- A section as its client alone executes it. -/
def execAlone [Target] (s : Clients) (i : ℕ) (k : Work) (c : Choice) :
    Option (Clients × List Work) :=
  (Conn.exec i k.task c (s.conn k.client)).map fun out =>
    (s.setConn k.client out.1, workOf k.client out.2)

/-- One section, executed by thread `i`. -/
def exec [Target] (i : ℕ) (k : Work) : Happening → Clients → Option (Clients × List Work)
  | .own c, s =>
      match k.task.sect with
      | .enterDrain =>
          match c with
          | .go => some (s.enterDrain i k)
          | _ => none
      | .leaveDrain =>
          match c with
          | .go => some (s.setDraining i none, [])
          | _ => none
      | _ => s.execAlone i k c
  | .meanwhile client e, s =>
      if k.task.sect.letsIn e then
        (Conn.entry e (s.conn client)).map fun out =>
          (s.setConn client out.1, workOf client out.2 ++ [k])
      else none

/-- A thread begins with an entry of one of the clients. -/
def entry (e : ℕ × Entry) (s : Clients) : Option (Clients × List Work) :=
  (Conn.entry e.2 (s.conn e.1)).map fun out => (s.setConn e.1 out.1, workOf e.1 out.2)

abbrev Config := Sections.Config Clients Work
abbrev Label := Sections.Label (ℕ × Entry) Happening

/-- Clients that were just made, with no thread in them. -/
def initial : Config := ⟨{}, []⟩

end Clients

/-- The clients and their threads. -/
def clients [Target] : Sections.Program Clients Work (ℕ × Entry) Happening :=
  ⟨Clients.entry, Clients.exec⟩

/-! ## What a section does -/

/-- Everything a section can do: what its client does, the two ends of a drain, or something else
that happens on its thread out of it. -/
inductive Acts (i : ℕ) (k : Work) (s : Clients) : Clients → List Work → Prop where
  | turnedBack (hsect : k.task.sect = .enterDrain) (hguard : s.draining i = some k.client) :
      Acts i k s s []
  | enters (hsect : k.task.sect = .enterDrain) (hfree : s.draining i ≠ some k.client) :
      Acts i k s (s.setDraining i (some k.client))
        (workOf k.client (k.task.origin.tasks [.drainFrames, .leaveDrain]))
  | leaves (hsect : k.task.sect = .leaveDrain) : Acts i k s (s.setDraining i none) []
  | alone [Target] {c : Choice} {w' : Conn} {tasks : List Task}
      (henter : k.task.sect.kind ≠ .enterDrain) (hleave : k.task.sect.kind ≠ .leaveDrain)
      (hexec : Conn.exec i k.task c (s.conn k.client) = some (w', tasks)) :
      Acts i k s (s.setConn k.client w') (workOf k.client tasks)
  | letsIn {client : ℕ} {e : Entry} {w' : Conn} {tasks : List Task}
      (hlets : k.task.sect.letsIn e = true)
      (hentry : Conn.entry e (s.conn client) = some (w', tasks)) :
      Acts i k s (s.setConn client w') (workOf client tasks ++ [k])

theorem Call.kind_ne_drain (c : Call) : c.kind ≠ .enterDrain ∧ c.kind ≠ .leaveDrain := by
  cases c <;> exact ⟨nofun, nofun⟩

theorem Callback.kind_ne_drain (c : Callback) : c.kind ≠ .enterDrain ∧ c.kind ≠ .leaveDrain := by
  cases c <;> exact ⟨nofun, nofun⟩

theorem Clients.exec_acts [Target] {i : ℕ} {k : Work} {h : Happening} {s s' : Clients}
    {ks : List Work} (hexec : Clients.exec i k h s = some (s', ks)) : Acts i k s s' ks := by
  cases h with
  | meanwhile client e =>
      obtain ⟨hlets, hexec⟩ := Option.ite_none_right_eq_some.mp hexec
      obtain ⟨⟨w', tasks⟩, hentry, hout⟩ := Option.map_eq_some_iff.mp hexec
      obtain ⟨rfl, rfl⟩ := Prod.mk.inj hout
      exact .letsIn hlets hentry
  | own c =>
      have halone (henter : k.task.sect.kind ≠ .enterDrain)
          (hleave : k.task.sect.kind ≠ .leaveDrain) (h : s.execAlone i k c = some (s', ks)) :
          Acts i k s s' ks := by
        obtain ⟨⟨w', tasks⟩, hconn, hout⟩ := Option.map_eq_some_iff.mp h
        obtain ⟨rfl, rfl⟩ := Prod.mk.inj hout
        exact .alone henter hleave hconn
      obtain ⟨client, o, sect⟩ := k
      cases sect with
      | enterDrain =>
          cases c with
          | go =>
              have hout : s.enterDrain i ⟨client, o, .enterDrain⟩ = (s', ks) :=
                Option.some.inj hexec
              rw [enterDrain] at hout
              split at hout
              · rename_i hguard
                obtain ⟨rfl, rfl⟩ := Prod.mk.inj hout
                exact .turnedBack rfl hguard
              · rename_i hfree
                obtain ⟨rfl, rfl⟩ := Prod.mk.inj hout
                exact .enters rfl hfree
          | _ => cases hexec
      | leaveDrain =>
          cases c with
          | go =>
              obtain ⟨rfl, rfl⟩ := Prod.mk.inj (Option.some.inj hexec)
              exact .leaves rfl
          | _ => cases hexec
      | call call => exact halone call.kind_ne_drain.1 call.kind_ne_drain.2 hexec
      | callback call => exact halone call.kind_ne_drain.1 call.kind_ne_drain.2 hexec
      | _ => exact halone nofun nofun hexec

end EspModemLink.WebSocket
