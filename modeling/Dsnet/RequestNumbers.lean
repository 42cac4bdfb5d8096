import Dsnet.HotStuff.Once
import Dsnet.TOMBFT.Once

/-! Request numbers of 64 bits in tables of 32: `ExecuteOne` of TOMBFT and `HandleRequest` of HotStuff. -/

namespace Dsnet

/-- As long as the requests of a client that reach a replica have numbers of 32 bits, no request of it is executed,
    or taken, twice, and none that is new is passed over; with the first number that does not fit, one is. -/
theorem requests_once_iff (E : TOMBFT.Env) (E' : HotStuff.Env) (c : Nat) :
    (∀ past s, Run (TOMBFT.system E) (TOMBFT.ShortNumbers c) past s →
      TOMBFT.OnceOnly E c s ∧ ∀ p : TOMBFT.Packet, p.request.clientid = c →
        (TOMBFT.OnceOnly E c (TOMBFT.executeOne E p s).2.1 ↔ p.request.clientreqid < 2 ^ 32)) ∧
    ∀ past x, Run (HotStuff.requests E') (HotStuff.ShortNumbers c) past x →
      HotStuff.OnceOnly c x ∧ (E'.isPrimary → x.replica.logged = x.handled) ∧
      ∀ remote req x', req.clientid = c → (HotStuff.requests E').step x (.message remote (.request req)) = some x' →
        (HotStuff.OnceOnly c x' ↔ req.clientreqid < 2 ^ 32) :=
  ⟨fun _ _ hr => TOMBFT.onceOnly_of_run hr, fun _ _ hr =>
    ⟨(HotStuff.onceOnly_of_run hr).1, fun hp => HotStuff.logged_of_run hp hr, (HotStuff.onceOnly_of_run hr).2⟩⟩

instance (c : Nat) : ∀ s e, Decidable (TOMBFT.ShortNumbers c s e)
  | _, (_, .request p) =>
    decidable_of_iff (p.request.clientid = c → p.request.clientreqid < 2 ^ 32)
      (by simp [TOMBFT.ShortNumbers, TOMBFT.Packet.Short])
  | _, (_, .viewChange _) => isTrue (by simp [TOMBFT.ShortNumbers])
  | _, (_, .viewStart _) => isTrue (by simp [TOMBFT.ShortNumbers])
  | _, (_, .epochStart _) => isTrue (by simp [TOMBFT.ShortNumbers])
  | _, (_, .query _) => isTrue (by simp [TOMBFT.ShortNumbers])

instance (c : Nat) : ∀ x e, Decidable (HotStuff.ShortNumbers c x e)
  | _, .message _ (.request req) =>
    decidable_of_iff (req.clientid = c → req.clientreqid < 2 ^ 32) (by simp [HotStuff.ShortNumbers])
  | _, .message _ (.generic _) => isTrue (by simp [HotStuff.ShortNumbers])
  | _, .message _ (.vote _) => isTrue (by simp [HotStuff.ShortNumbers])
  | _, .timer _ => isTrue (by simp [HotStuff.ShortNumbers])

/-- The primary of four HotStuff replicas. -/
def primaryOfFour : HotStuff.Env where
  config := { n := 4, f := 1 }
  replicaIdx := 0
  batchSize := 8
  app := .default

theorem session_one_lt : 1 < 2 ^ 16 := by decide

/-- Request `n` of client 1, stamped with `number` by the sequencer. -/
def stamped (n number : Nat) (h : number < 2 ^ 32 := by decide) (h' : 0 < number := by decide) :
    Addr × TOMBFT.Message :=
  (.client 1, .request { number := number, session := 1, request := { op := "", clientid := 1, clientreqid := n },
                         number_lt := h, session_lt := session_one_lt, sequenced := by omega })

/-- Request `n` of client 1. -/
def asks (n : Nat) : HotStuff.Input := .message (.client 1) (.request { op := "", clientid := 1, clientreqid := n })

/-- The largest number that fits, and a repeated request. -/
theorem requests_once_iff_largest :
    (∃ s, s.numbersOf 1 = [7, 2 ^ 32 - 1] ∧ TOMBFT.OnceOnly TOMBFT.fourReplicas 1 s) ∧
    ∃ x, x.numbersOf 1 = [7, 2 ^ 32 - 1] ∧ HotStuff.OnceOnly 1 x := by
  obtain ⟨past, s, hr, hs⟩ := Run.exists_of_exec (TOMBFT.system TOMBFT.fourReplicas) (TOMBFT.ShortNumbers 1)
    [stamped 7 1, stamped (2 ^ 32 - 1) 2, stamped 7 3] (fun s => s.numbersOf 1 = [7, 2 ^ 32 - 1]) (by decide +kernel)
  obtain ⟨past', x, hr', hx⟩ := Run.exists_of_exec (HotStuff.requests primaryOfFour) (HotStuff.ShortNumbers 1)
    [asks 7, asks (2 ^ 32 - 1), asks 7] (fun x => x.numbersOf 1 = [7, 2 ^ 32 - 1]) (by decide +kernel)
  have honce := requests_once_iff TOMBFT.fourReplicas primaryOfFour 1
  exact ⟨⟨s, of_decide_eq_true hs, (honce.1 past s hr).1⟩, x, of_decide_eq_true hx, (honce.2 past' x hr').1⟩

/-- A request that comes twice, with a number of 33 bits, is executed twice. -/
theorem long_number_executed_twice :
    (∃ past s, Run (TOMBFT.system TOMBFT.fourReplicas) (fun _ _ => True) past s ∧
      s.numbersOf 1 = [2 ^ 32 + 5, 2 ^ 32 + 5]) ∧
    ∃ past x, Run (HotStuff.requests primaryOfFour) (fun _ _ => True) past x ∧
      x.replica.logged.map (·.clientreqid) = [2 ^ 32 + 5, 2 ^ 32 + 5] := by
  obtain ⟨past, s, hr, hs⟩ := Run.exists_of_exec (TOMBFT.system TOMBFT.fourReplicas) (fun _ _ => True)
    [stamped (2 ^ 32 + 5) 1, stamped (2 ^ 32 + 5) 2] (fun s => s.numbersOf 1 = [2 ^ 32 + 5, 2 ^ 32 + 5])
    (by decide +kernel)
  obtain ⟨past', x, hr', hx⟩ := Run.exists_of_exec (HotStuff.requests primaryOfFour) (fun _ _ => True)
    [asks (2 ^ 32 + 5), asks (2 ^ 32 + 5)]
    (fun x => x.replica.logged.map (·.clientreqid) = [2 ^ 32 + 5, 2 ^ 32 + 5]) (by decide +kernel)
  exact ⟨⟨past, s, hr, of_decide_eq_true hs⟩, past', x, hr', of_decide_eq_true hx⟩

end Dsnet
