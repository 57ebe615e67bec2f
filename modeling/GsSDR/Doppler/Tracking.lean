import GsSDR.Doppler.Applied
import GsSDR.Doppler.SetCommands

/-!
# A GSJD session follows its requests

A GSJD client sends four kinds of lines: an RX frequency, both frequencies, a TX
frequency, and the state of the radio.  All are answered alike.  A TX frequency alone
and the state set nothing.  So the session has the last RX frequency of the first two
kinds and the last TX frequency of the second, and it hands over the pair whenever a
request changes it (`follows_requests`).
-/

namespace GsSDR

namespace Doppler

open Cxx Mealy

/-- The lines of a GSJD client. -/
inductive Request where
  | rx (rx : Str)
  | rxTx (rx tx : Str)
  | tx (tx : Str)
  | state (state : Str)
deriving DecidableEq, Repr

namespace Request

/-- The line without its newline. -/
def body : Request → Str
  | .rx text => 'f' :: text
  | .rxTx text text' => 'f' :: (text ++ 'F' :: text')
  | .tx text => 'F' :: text
  | .state text => 'M' :: text

def text (r : Request) : Str := r.body ++ ['\n']

/-- It has one newline, and the letter of the TX frequency is no part of the RX
frequency. -/
def Plain : Request → Prop
  | .rx text => '\n' ∉ text ∧ 'F' ∉ text
  | .rxTx text text' => '\n' ∉ text ∧ 'F' ∉ text ∧ '\n' ∉ text'
  | .tx text => '\n' ∉ text
  | .state text => '\n' ∉ text

/-- The RX frequency that a request sets. -/
def rxSet : Request → Option Int
  | .rx text | .rxTx text _ => lexicalCastInt (stripZeros text)
  | .tx _ | .state _ => none

/-- The TX frequency that a request sets. -/
def txSet : Request → Option Int
  | .rxTx _ text => lexicalCastInt (stripZeros text)
  | .rx _ | .tx _ | .state _ => none

/-- Both frequencies behind a request. -/
def pair (r : Request) (freq : Int × Int) : Int × Int :=
  (r.rxSet.getD freq.1, r.txSet.getD freq.2)

end Request

/-- The pairs of frequencies behind the requests that change them. -/
def pairChanges : Int × Int → List Request → List (Int × Int)
  | _, [] => []
  | freq, r :: rs =>
      if r.pair freq = freq then pairChanges freq rs
      else r.pair freq :: pairChanges (r.pair freq) rs

/-- The frequencies of a session. -/
def Session.freqs (session : Session) : Int × Int := (session.freqRx, session.freqTx)

variable {β : Type*} {lexicalCast : Str → Option Int} {correction : Int → β}
  {h : List (State β × Event)} {s : State β} {r : Request} {requests : List Request}

/-! ## One request -/

theorem newline_not_mem_body (hr : r.Plain) : '\n' ∉ r.body := by
  cases r with
  | rx text => simpa [Request.body] using hr.1
  | rxTx text text' => simpa [Request.body] using ⟨hr.1, hr.2.2⟩
  | tx text => simpa [Request.body] using show '\n' ∉ text from hr
  | state text => simpa [Request.body] using show '\n' ∉ text from hr

theorem rxValue_request (hr : r.Plain) :
    rxValue lexicalCastInt .gsjd r.text = r.rxSet := by
  rw [rxValue, Request.text, rxField_line .gsjd (newline_not_mem_body hr)]
  cases r with
  | rx text =>
      have htext : text.takeWhile (fun c => c ≠ 'F') = text :=
        List.takeWhile_eq_self_iff.mpr (forall_ne hr.2)
      show lexicalCastInt (stripZeros (text.takeWhile fun c => c ≠ 'F')) = _
      rw [htext]
      rfl
  | rxTx text text' =>
      rw [Request.body, rxText_combined hr.2.1]
      rfl
  | tx text => rfl
  | state text => rfl

theorem txValue_request (hr : r.Plain) :
    txValue lexicalCastInt .gsjd r.text = r.txSet := by
  rw [txValue, Request.text, txField_line]
  cases r with
  | rx text =>
      have hF : contains ['F'] ('f' :: text) = false := by
        rw [Bool.eq_false_iff, ne_eq, contains_singleton]
        simpa using hr.2
      simp only [Request.body, txText, hF]
      rfl
  | rxTx text text' =>
      rw [Request.body, txText_combined hr.2.1]
      rfl
  | tx text => exact isIntCast_lexicalCastInt.nil
  | state text => rfl

/-- What a session does with a request. -/
theorem hear_request (hr : r.Plain) (session : Session) :
    (session.hear lexicalCastInt .gsjd r.text).freqs = r.pair session.freqs ∧
      session.reply lexicalCastInt .gsjd r.text = some okReply ∧
      session.publish lexicalCastInt .gsjd r.text =
        if r.pair session.freqs = session.freqs then none else some (r.pair session.freqs) := by
  have hafter : session.hear lexicalCastInt .gsjd r.text =
      ⟨decide (r.pair session.freqs ≠ session.freqs), (r.pair session.freqs).1,
        (r.pair session.freqs).2⟩ := by
    rw [Session.hear, handleRead_eq, Session.after, rxValue_request hr, txValue_request hr]
    simp only [Request.pair, Session.freqs, Session.mk.injEq, and_true]
    rw [Bool.eq_iff_iff]
    simp only [Bool.or_eq_true, bne_iff_ne, decide_eq_true_eq, ne_eq, Prod.mk.injEq]
    tauto
  refine ⟨?_, ?_, ?_⟩
  · rw [hafter]
    rfl
  · rw [Session.reply, handleRead_eq]
    cases r <;> rfl
  · rw [Session.publish, hafter, Session.callback]
    by_cases hsame : r.pair session.freqs = session.freqs
    · simp [hsame]
    · simp [hsame]

/-! ## All requests -/

theorem outputs_pairChanges (freq : Int × Int) (requests : List Request) :
    outputs (fun freq (r : Request) => r.pair freq)
        (fun freq r => if r.pair freq = freq then none else some (r.pair freq)) freq requests =
      pairChanges freq requests := by
  induction requests generalizing freq with
  | nil => rfl
  | cons r rs ih =>
      rw [outputs, ih, pairChanges]
      split
      next hsame =>
        rw [hsame]
        rfl
      next => rfl

/-- The last frequencies that requests set. -/
theorem foldl_pair (freq : Int × Int) (requests : List Request) :
    requests.foldl (fun freq r => r.pair freq) freq =
      ((requests.filterMap Request.rxSet).getLastD freq.1,
        (requests.filterMap Request.txSet).getLastD freq.2) := by
  rw [← foldl_latest, ← foldl_latest]
  induction requests generalizing freq with
  | nil => rfl
  | cons r rs ih =>
      rw [List.foldl_cons, ih]
      rfl

/-- A session that has read these requests. -/
theorem hear_requests (hplain : ∀ r ∈ requests, r.Plain) :
    ((requests.map Request.text).foldl (Session.hear lexicalCastInt .gsjd) .new).freqs =
        ((requests.filterMap Request.rxSet).getLastD 0,
          (requests.filterMap Request.txSet).getLastD 0) ∧
      outputs (Session.hear lexicalCastInt .gsjd) (Session.reply lexicalCastInt .gsjd) .new
          (requests.map Request.text) = requests.map (fun _ => okReply) ∧
      outputs (Session.hear lexicalCastInt .gsjd) (Session.publish lexicalCastInt .gsjd) .new
          (requests.map Request.text) = pairChanges (0, 0) requests := by
  have hreplies : (outputs (Session.hear lexicalCastInt .gsjd)
        (Session.reply lexicalCastInt .gsjd) .new (requests.map Request.text)).map id =
      outputs (fun freq r => r.pair freq) (fun _ _ => some okReply) (0, 0) requests ∧
      ((requests.map Request.text).foldl (Session.hear lexicalCastInt .gsjd) .new).freqs =
        requests.foldl (fun freq r => r.pair freq) (0, 0) := by
    refine outputs_simulation (R := fun (session : Session) freq => session.freqs = freq)
      (fun session freq hR r hr => ?_) rfl
    obtain ⟨hfreqs, hreply, _⟩ := hear_request (hplain r hr) session
    rw [hfreqs, hreply, ← hR]
    exact ⟨rfl, rfl⟩
  have hpublished : (outputs (Session.hear lexicalCastInt .gsjd)
        (Session.publish lexicalCastInt .gsjd) .new (requests.map Request.text)).map id =
      outputs (fun freq r => r.pair freq)
        (fun freq r => if r.pair freq = freq then none else some (r.pair freq)) (0, 0) requests ∧
      ((requests.map Request.text).foldl (Session.hear lexicalCastInt .gsjd) .new).freqs =
        requests.foldl (fun freq r => r.pair freq) (0, 0) := by
    refine outputs_simulation (R := fun (session : Session) freq => session.freqs = freq)
      (fun session freq hR r hr => ?_) rfl
    obtain ⟨hfreqs, _, hpublish⟩ := hear_request (hplain r hr) session
    rw [hfreqs, hpublish, ← hR, Option.map_id, id]
    exact ⟨rfl, rfl⟩
  rw [List.map_id] at hreplies hpublished
  refine ⟨?_, ?_, ?_⟩
  · rw [hreplies.2, foldl_pair]
  · rw [hreplies.1, outputs_some]
  · rw [hpublished.1, outputs_pairChanges]

/-- In a GSJD session every request is answered `OK`; the frequencies in force are the
last that requests for RX, or for both, have set; and the session hands over the pair
behind each request that changes it.  The ports carry what all sessions hand over. -/
theorem follows_requests (hcast : IsIntCast lexicalCast)
    (run : Run lexicalCast .gsjd correction h s) (hno : s.exitRequested = false) {id : Nat}
    (hplain : ∀ r ∈ requests, r.Plain) (htexts : texts id h = requests.map Request.text) :
    replies lexicalCast .gsjd id h = requests.map (fun _ => okReply) ∧
      (∀ c ∈ s.clients, c.id = id →
        c.session.freqRx = (requests.filterMap Request.rxSet).getLastD 0 ∧
          c.session.freqTx = (requests.filterMap Request.txSet).getLastD 0) ∧
      callbacks id h = pairChanges (0, 0) (answered id s requests) ∧
      s.outRx = (h.filterMap callbackOf).map (fun freq => correction freq.1) ∧
      s.outTx = (h.filterMap callbackOf).map (fun freq => correction freq.2) := by
  obtain rfl := hcast.eq_lexicalCastInt
  have hfollows := run.follows hno id
  obtain ⟨hfreqs, hreplies, _⟩ := hear_requests hplain
  refine ⟨?_, ?_, ?_, run.ports⟩
  · rw [hfollows.replies, htexts, hreplies]
  · intro c hc hid
    rw [hfollows.session c hc hid, htexts]
    exact Prod.mk.inj hfreqs
  · rw [hfollows.callbacks, htexts, answered_map]
    exact (hear_requests fun r hr => hplain r (mem_answered hr)).2.2

/-- A client sets an RX frequency, both, a TX frequency alone, and the same RX frequency
again, while another client sends the state of its radio. -/
theorem follows_requests_fourLines :
    ∃ r, Transition.exec (step lexicalCastInt .gsjd (exactCorrection 1000)) initial
        [.accept true, .read 0 (some (Request.rx ['0', '9', '0']).text), .write 0 true,
          .accept true, .read 0 (some (Request.rxTx ['1', '0', '0'] ['2', '0', '0']).text),
          .read 1 (some (Request.state ['1']).text), .write 0 true, .write 1 true,
          .read 0 (some (Request.tx ['3', '0', '0']).text), .write 0 true,
          .read 0 (some (Request.rx ['1', '0', '0']).text), .write 0 true] = some r ∧
      callbacks 0 r.1 = [(90, 0), (100, 200)] ∧ r.2.outRx = [910, 900] ∧
      r.2.outTx = [1000, 800] := by
  let requests : List Request := [.rx ['0', '9', '0'], .rxTx ['1', '0', '0'] ['2', '0', '0'],
    .tx ['3', '0', '0'], .rx ['1', '0', '0']]
  obtain ⟨r, hr, hno, htexts, hwritten, hrx, htx⟩ :
      ∃ r, Transition.exec (step lexicalCastInt .gsjd (exactCorrection 1000)) initial
          [.accept true, .read 0 (some (Request.rx ['0', '9', '0']).text), .write 0 true,
            .accept true, .read 0 (some (Request.rxTx ['1', '0', '0'] ['2', '0', '0']).text),
            .read 1 (some (Request.state ['1']).text), .write 0 true, .write 1 true,
            .read 0 (some (Request.tx ['3', '0', '0']).text), .write 0 true,
            .read 0 (some (Request.rx ['1', '0', '0']).text), .write 0 true] = some r ∧
        r.2.exitRequested = false ∧ texts 0 r.1 = requests.map Request.text ∧
        answered 0 r.2 requests = requests ∧
        (r.1.filterMap callbackOf).map (fun freq => exactCorrection 1000 freq.1) = [910, 900] ∧
        (r.1.filterMap callbackOf).map (fun freq => exactCorrection 1000 freq.2) = [1000, 800] :=
    ⟨_, rfl, rfl, rfl, rfl, rfl, rfl⟩
  have hplain : ∀ r ∈ requests, r.Plain := by
    intro r hr
    simp only [requests, List.mem_cons, List.not_mem_nil, or_false] at hr
    rcases hr with rfl | rfl | rfl | rfl <;> simp [Request.Plain]
  obtain ⟨_, _, hcallbacks, houtRx, houtTx⟩ := follows_requests isIntCast_lexicalCastInt
    (Transition.exec_run hr) hno hplain htexts
  rw [hwritten] at hcallbacks
  exact ⟨r, hr, hcallbacks, houtRx.trans hrx, houtTx.trans htx⟩

end Doppler

end GsSDR
