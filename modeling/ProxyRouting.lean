import ProxyRouting.Condition.Cache
import ProxyRouting.Expr.Eval
import ProxyRouting.Main
import ProxyRouting.Proofs.RuleList.Optimize
import ProxyRouting.Proofs.Condition.Session
import ProxyRouting.Proofs.RuleList.TextForm
import ProxyRouting.Proofs.RuleList.Document
import ProxyRouting.Proofs.Condition.TextForm
import ProxyRouting.Proofs.Expr.Readback
import ProxyRouting.Proofs.Condition.Written
import ProxyRouting.Proofs.Condition.BypassPort
import ProxyRouting.Proofs.Condition.FamilyLook
import ProxyRouting.Proofs.RuleList.Script
import ProxyRouting.Proofs.RuleList.Diagnosis
import ProxyRouting.Proofs.Regex.Captures
import ProxyRouting.Proofs.Regex.SlashSpelling
import ProxyRouting.Proofs.Regex.UnitEscapes
import ProxyRouting.Proofs.Expr.Comments
import ProxyRouting.Proofs.Condition.Bounds
import ProxyRouting.Proofs.Condition.WildcardLists
import ProxyRouting.Proofs.Site
import ProxyRouting.Proofs.Condition.NetworkEntry
import ProxyRouting.Proofs.Expr.Constructors
import ProxyRouting.Proofs.Condition.HostShaped
import ProxyRouting.Proofs.RuleList.LineEnds
import ProxyRouting.Proofs.Url.Offsets
import ProxyRouting.Proofs.Expr.Positions
import ProxyRouting.Proofs.Regex.RangeAlgebra
