/-
Network rules: the lists of allowed and denied hosts that a sequence of rules
compiles to, where the last rule for a host decides.
-/
import Hexa.ExecPolicy.Policy

namespace Hexa.ExecPolicy

open List

universe u

def upsertDomain (entries : List String) (host : String) : List String :=
  entries.filter (· ≠ host) ++ [host]

/-- One turn of the loop, on the allowed and the denied hosts. -/
def compileNetworkRule (domains : List String × List String) (rule : NetworkRule) :
    List String × List String :=
  match rule.decision with
  | .allow => (upsertDomain domains.1 rule.host, domains.2.filter (· ≠ rule.host))
  | .forbidden => (domains.1.filter (· ≠ rule.host), upsertDomain domains.2 rule.host)
  | .prompt => domains

def Policy.compiledNetworkDomains {Path : Type u} (policy : Policy Path) :
    List String × List String :=
  policy.networkRules.foldl compileNetworkRule ([], [])

variable (rules : List NetworkRule)

/-- The last rule for a host that does not prompt, with its position. -/
def lastRule (host : String) : Option (NetworkRule × Nat) :=
  (rules.zipIdx.filter (fun entry => entry.1.host = host ∧ entry.1.decision ≠ .prompt)).getLast?

/-- The last rule for the host makes this decision. -/
def Decides (decision : Decision) (host : String) : Prop :=
  ∃ last, lastRule rules host = some last ∧ last.1.decision = decision

/-- The last rule for the one host comes before that for the other. -/
def DecidedBefore (first second : String) : Prop :=
  ∀ earlier later, lastRule rules first = some earlier →
    lastRule rules second = some later → earlier.2 < later.2

section Compile

variable {rules : List NetworkRule} {rule : NetworkRule} {host : String} {decision : Decision}
  {entries : List String}

theorem lastRule_append (rules : List NetworkRule) (rule : NetworkRule) (host : String) :
    lastRule (rules ++ [rule]) host =
      if rule.host = host ∧ rule.decision ≠ .prompt then some (rule, rules.length)
      else lastRule rules host := by
  rw [lastRule, zipIdx_append]
  split_ifs with hlast <;> simp [lastRule, hlast]

theorem lastRule_append_of_ne (hother : rule.host ≠ host) :
    lastRule (rules ++ [rule]) host = lastRule rules host := by
  rw [lastRule_append, if_neg (fun hlast => hother hlast.1)]

theorem lastRule_append_self (hrule : rule.decision ≠ .prompt) :
    lastRule (rules ++ [rule]) rule.host = some (rule, rules.length) := by
  rw [lastRule_append, if_pos ⟨rfl, hrule⟩]

theorem lastRule_lt {last : NetworkRule × Nat} (hlast : lastRule rules host = some last) :
    last.2 < rules.length := by
  have hmem := mem_of_mem_filter (mem_of_getLast? hlast)
  simpa using snd_lt_of_mem_zipIdx hmem

/-- The list holds the hosts with the decision, in the order of the rules
that decide. -/
structure Lists (rules : List NetworkRule) (decision : Decision)
    (entries : List String) : Prop where
  mem_iff : ∀ host, host ∈ entries ↔ Decides rules decision host
  ordered : entries.Pairwise (DecidedBefore rules)

/-- A rule takes its host out of a list, and puts it at the end of its own. -/
theorem Lists.step (hlists : Lists rules decision entries) (hrule : rule.decision ≠ .prompt) :
    Lists (rules ++ [rule]) decision (entries.filter (· ≠ rule.host) ++
      if rule.decision = decision then [rule.host] else []) := by
  have hother : ∀ host ∈ entries.filter (· ≠ rule.host),
      lastRule (rules ++ [rule]) host = lastRule rules host := by
    intro host hmem
    have hne := (mem_filter.mp hmem).2
    exact lastRule_append_of_ne (Ne.symm (by simpa using hne))
  refine ⟨fun host => ?_, pairwise_append.mpr ⟨?_, ?_, ?_⟩⟩
  · by_cases hhost : rule.host = host
    · subst hhost
      by_cases hsame : rule.decision = decision <;>
        simp [Decides, lastRule_append_self hrule]
    · rw [Decides, lastRule_append_of_ne hhost, ← Decides, ← hlists.mem_iff]
      split_ifs <;> simp [Ne.symm hhost]
  · refine (hlists.ordered.filter _).imp_of_mem ?_
    intro first second hfirst hsecond hbefore
    rw [DecidedBefore, hother first hfirst, hother second hsecond]
    exact hbefore
  · split_ifs <;> simp
  · -- The host of the new rule is decided last.
    intro first hfirst second hsecond earlier later hearlier hlater
    obtain rfl := mem_singleton.mp (mem_ite_nil_right.mp hsecond).2
    rw [lastRule_append_self hrule] at hlater
    rw [hother first hfirst] at hearlier
    cases hlater
    exact lastRule_lt hearlier

theorem lists_foldl (rules : List NetworkRule) :
    Lists rules .allow (rules.foldl compileNetworkRule ([], [])).1 ∧
      Lists rules .forbidden (rules.foldl compileNetworkRule ([], [])).2 := by
  induction rules using List.reverseRecOn with
  | nil =>
    have hnone : ∀ decision, Lists [] decision [] := fun decision =>
      ⟨by simp [Decides, lastRule], .nil⟩
    exact ⟨hnone _, hnone _⟩
  | append_singleton rules rule ih =>
    rw [foldl_append, foldl_cons, compileNetworkRule]
    cases hrule : rule.decision with
    | allow | forbidden =>
      have hset : rule.decision ≠ .prompt := by simp [hrule]
      simpa [hrule, upsertDomain] using And.intro (ih.1.step hset) (ih.2.step hset)
    | prompt =>
      have hsame : lastRule (rules ++ [rule]) = lastRule rules := by
        funext host
        rw [lastRule_append, if_neg (fun hlast => hlast.2 hrule)]
      have hskip : ∀ {decision entries}, Lists rules decision entries →
          Lists (rules ++ [rule]) decision entries := by
        rintro decision entries ⟨hmem, hordered⟩
        constructor
        · simpa only [Decides, hsame] using hmem
        · unfold DecidedBefore
          rw [hsame]
          exact hordered
      exact ⟨hskip ih.1, hskip ih.2⟩

theorem Lists.nodup (hlists : Lists rules decision entries) : entries.Nodup := by
  refine hlists.ordered.imp_of_mem ?_
  rintro first second hfirst - hbefore rfl
  obtain ⟨last, hlast, -⟩ := (hlists.mem_iff first).mp hfirst
  exact lt_irrefl _ (hbefore last last hlast hlast)

end Compile

/-- The compiled lists are disjoint and without duplicates, the last rule for
a host that does not prompt decides about it, and each list is in the order of
these rules. -/
theorem compiledNetworkDomains_of_last_rules {Path : Type u} (policy : Policy Path) :
    ∃ allowed denied,
      policy.compiledNetworkDomains = (allowed, denied) ∧
      allowed.Disjoint denied ∧ allowed.Nodup ∧ denied.Nodup ∧
      (∀ host, host ∈ denied ↔ Decides policy.networkRules .forbidden host) ∧
      (∀ host, host ∈ allowed ↔ Decides policy.networkRules .allow host) ∧
      allowed.Pairwise (DecidedBefore policy.networkRules) ∧
      denied.Pairwise (DecidedBefore policy.networkRules) := by
  obtain ⟨hallowed, hdenied⟩ := lists_foldl policy.networkRules
  refine ⟨_, _, rfl, ?_, hallowed.nodup, hdenied.nodup, hdenied.mem_iff,
    hallowed.mem_iff, hallowed.ordered, hdenied.ordered⟩
  intro host hallow hdeny
  obtain ⟨first, hfirst, hallows⟩ := (hallowed.mem_iff host).mp hallow
  obtain ⟨second, hsecond, hdenies⟩ := (hdenied.mem_iff host).mp hdeny
  rw [hfirst] at hsecond
  cases hsecond
  cases hallows.symm.trans hdenies

end Hexa.ExecPolicy
