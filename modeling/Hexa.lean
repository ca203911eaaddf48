import Hexa.ExecPolicy.Amend
import Hexa.NetworkProxy.PolicyState
import Hexa.RemoteControl.Inbound
import Hexa.ApplyPatch.Delta
import Hexa.NoiseRelay.ReorderWindow
import Hexa.NoiseRelay.HandshakeBudget
import Hexa.ApplyPatch.RoundTrip
import Hexa.StreamParser.AssistantText
import Hexa.Permissions.WritableRoots
import Hexa.Permissions.Join
import Hexa.Agent.SpawnAccounting
import Hexa.Agent.Residency
import Hexa.ExecServer.SessionSafety
import Hexa.History.RetainedHonest
import Hexa.TurnDiff.Turn
import Hexa.ExecServer.EventDelivery
import Hexa.Rollout.RolledBackTurns
import Hexa.ApplyPatch.ModesAgree
import Hexa.NetworkProxy.ChildEnvironment
import Hexa.NetworkProxy.CredentialInjection
import Hexa.NetworkProxy.MitmHooks
import Hexa.Rollout.BoundedResume
import Hexa.Rollout.WriterOnce
import Hexa.LinuxSandbox.MountTargets
import Hexa.ExecPolicy.NetworkRules
import Hexa.ExecPolicy.NetworkHosts
import Hexa.UnifiedExec.HeadTail
import Hexa.History.CallPairs
import Hexa.Config.SkillToggles
import Hexa.Utils.FuzzyMatch
import Hexa.Tui.StreamCore
