import GeoPattern.About
import GeoPattern.Main
import GeoPattern.Proofs.Canonical
import GeoPattern.Proofs.CommandLine
import GeoPattern.Proofs.Layout.Meaning
import GeoPattern.Proofs.Layout.Mirror
import GeoPattern.Proofs.Layout.Report
import GeoPattern.Proofs.Layout.Shift
import GeoPattern.Proofs.Number.Order
import GeoPattern.Proofs.Number.Stable
import GeoPattern.Proofs.Pattern.Annotated
import GeoPattern.Proofs.Pattern.Brackets
import GeoPattern.Proofs.Pattern.Language
import GeoPattern.Proofs.Pattern.Specifier
import GeoPattern.Proofs.Settings
