import GraphqlClient.Main
import GraphqlClient.Proofs.Command.Found
import GraphqlClient.Proofs.Command.Printed
import GraphqlClient.Proofs.Command.Rerun
import GraphqlClient.Proofs.Declaration.Coverage
import GraphqlClient.Proofs.Naming.Apart
import GraphqlClient.Proofs.Naming.KindSuffix
import GraphqlClient.Proofs.Naming.Spellings
import GraphqlClient.Proofs.Sdk.Constants
import GraphqlClient.Proofs.Sdk.Failure
import GraphqlClient.Proofs.Sdk.FileOrder
import GraphqlClient.Proofs.Sdk.Imports
import GraphqlClient.Proofs.Sdk.LaterFiles
import GraphqlClient.Proofs.Sdk.Layout
import GraphqlClient.Proofs.Sdk.Rendering
import GraphqlClient.Proofs.Sdk.Visits
import GraphqlClient.Proofs.Settings.MemberOrder
import GraphqlClient.Proofs.Text.Indentation
